/-!
# Tables keyed by names

A `NameTable` keeps its entries sorted by name, in the order of code points, and holds at most one
entry for a name when it was built by insertions. Listing a table is therefore always sorted.

`find?_insert` and `find?_erase` are the two equations through which everything else is read.
-/

namespace ObjectSystem

/-- Entries sorted by name. -/
structure NameTable (α : Type) where
  entries : List (String × α) := []
  deriving Repr, DecidableEq

namespace NameTable

variable {α β : Type}

/-- The table with no entry. -/
def empty : NameTable α := {}

/-- The value filed under a name. -/
def find? (t : NameTable α) (name : String) : Option α :=
  t.entries.lookup name

/-- Whether a value is filed under a name. -/
def contains (t : NameTable α) (name : String) : Bool :=
  (t.find? name).isSome

/-- Puts an entry at its place in a sorted list, over an older entry of the same name. -/
def insertEntry (name : String) (value : α) : List (String × α) → List (String × α)
  | [] => [(name, value)]
  | (key, old) :: rest =>
    if name = key then (name, value) :: rest
    else if name < key then (name, value) :: (key, old) :: rest
    else (key, old) :: insertEntry name value rest

/-- Files a value under a name; an older value of that name is replaced. -/
def insert (t : NameTable α) (name : String) (value : α) : NameTable α :=
  ⟨insertEntry name value t.entries⟩

/-- Removes whatever is filed under a name. -/
def erase (t : NameTable α) (name : String) : NameTable α :=
  ⟨t.entries.filter fun entry => entry.1 ≠ name⟩

/-- The names of a table, sorted. -/
def names (t : NameTable α) : List String :=
  t.entries.map (·.1)

/-- The values of a table, in the order of their names. -/
def values (t : NameTable α) : List α :=
  t.entries.map (·.2)

/-- Number of entries. -/
def size (t : NameTable α) : Nat :=
  t.entries.length

/-- Files the entries of a list one after the other, so that a later entry wins. -/
def ofList (entries : List (String × α)) : NameTable α :=
  entries.foldl (fun t (name, value) => t.insert name value) empty

/-- Changes every value and no name. -/
def map (f : α → β) (t : NameTable α) : NameTable β :=
  ⟨t.entries.map fun (name, value) => (name, f value)⟩

/-! ### What is found after a change -/

theorem lookup_insertEntry (name key : String) (value : α) (entries : List (String × α)) :
    (insertEntry name value entries).lookup key =
      if key = name then some value else entries.lookup key := by
  fun_induction insertEntry name value entries with
  | case1 =>
    by_cases h : key = name
    · simp [h]
    · simp [List.lookup_cons, h, beq_false_of_ne h]
  | case2 old rest =>
    by_cases h : key = name
    · simp [h]
    · simp [List.lookup_cons, h, beq_false_of_ne h]
  | case3 k old rest _ _ =>
    by_cases h : key = name
    · simp [h]
    · simp [List.lookup_cons, h, beq_false_of_ne h]
  | case4 k old rest hne _ ih =>
    by_cases hk : key = k
    · subst hk
      simp [Ne.symm hne]
    · simp [List.lookup_cons, beq_false_of_ne hk, ih]

@[simp] theorem find?_empty (key : String) : (empty : NameTable α).find? key = none := rfl

theorem find?_insert (t : NameTable α) (name key : String) (value : α) :
    (t.insert name value).find? key = if key = name then some value else t.find? key :=
  lookup_insertEntry name key value t.entries

theorem find?_insert_self (t : NameTable α) (name : String) (value : α) :
    (t.insert name value).find? name = some value := by
  simp [find?_insert]

theorem find?_erase (t : NameTable α) (name key : String) :
    (t.erase name).find? key = if key = name then none else t.find? key := by
  unfold erase find?
  induction t.entries with
  | nil => simp
  | cons entry rest ih =>
    obtain ⟨k, v⟩ := entry
    by_cases hk : k = name
    · subst hk
      by_cases h : key = k
      · simpa [h] using ih
      · simpa [List.lookup_cons, beq_false_of_ne h, h] using ih
    · by_cases h : key = k
      · subst h
        simp [hk]
      · simpa [List.filter_cons, hk, List.lookup_cons, beq_false_of_ne h] using ih

theorem mem_of_find? {t : NameTable α} {name : String} {value : α}
    (h : t.find? name = some value) : (name, value) ∈ t.entries := by
  obtain ⟨before, after, hentries, -⟩ := List.lookup_eq_some_iff.mp h
  rw [hentries]
  exact List.mem_append_right _ List.mem_cons_self

theorem mem_of_mem_insertEntry {name : String} {value : α} {entries : List (String × α)}
    {entry : String × α} (h : entry ∈ insertEntry name value entries) :
    entry = (name, value) ∨ entry ∈ entries := by
  fun_induction insertEntry name value entries with
  | case1 => exact .inl (List.mem_singleton.mp h)
  | case2 old rest =>
    exact (List.mem_cons.mp h).imp id (List.mem_cons_of_mem _)
  | case3 k old rest _ _ => exact List.mem_cons.mp h
  | case4 k old rest _ _ ih =>
    rcases List.mem_cons.mp h with heq | h
    · exact .inr (heq ▸ List.mem_cons_self)
    · exact (ih h).imp id (List.mem_cons_of_mem _)

end NameTable

end ObjectSystem
