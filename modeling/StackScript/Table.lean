/-!
Tables: maps from names that keep the order in which the names came.

Variables in a scope, functions in a unit and symbols in a linker are all kept in tables. A table is
the list of its entries; inserting a name that is there replaces its value and leaves its place.

* `Table`: the entries, in order;
* `Table.insert`, `Table.find?`, `Table.contains`, `Table.names`, `Table.size`: its operations;
* `Table.ofPairs`: the table that holds the last value given for each name.

Design notes: entries that were not put in by `insert` (those of a unit read from a file) may repeat a
name; `find?` answers the first of them.
-/

namespace StackScript

/-- Names with their values, in order. -/
structure Table (α : Type) where
  entries : List (String × α) := []

namespace Table

variable {α : Type}

/-- The table without entries. -/
def empty : Table α := {}

instance : Inhabited (Table α) := ⟨empty⟩

/-- The value of a name. -/
def find? (t : Table α) (name : String) : Option α :=
  (t.entries.find? (·.1 = name)).map (·.2)

/-- A name is in the table. -/
def contains (t : Table α) (name : String) : Bool :=
  (t.find? name).isSome

/-- The names in order. -/
def names (t : Table α) : List String :=
  t.entries.map (·.1)

/-- The number of entries. -/
def size (t : Table α) : Nat :=
  t.entries.length

/-- There are no entries. -/
def isEmpty (t : Table α) : Bool :=
  t.entries.isEmpty

/-- Give a name a value among entries: in its place if it is there, else at the end. -/
def insertEntry (name : String) (value : α) : List (String × α) → List (String × α)
  | [] => [(name, value)]
  | (n, v) :: rest =>
    if n = name then (n, value) :: rest else (n, v) :: insertEntry name value rest

/-- Give a name a value. -/
def insert (t : Table α) (name : String) (value : α) : Table α :=
  ⟨insertEntry name value t.entries⟩

/-- Give a name a value, and answer the value that it had. -/
def exchange (t : Table α) (name : String) (value : α) : Option α × Table α :=
  (t.find? name, t.insert name value)

/-- Insert pairs one after the other. -/
def insertAll (t : Table α) (pairs : List (String × α)) : Table α :=
  pairs.foldl (fun t p => t.insert p.1 p.2) t

/-- The table of a list of pairs; of two pairs with one name the later one counts. -/
def ofPairs (pairs : List (String × α)) : Table α :=
  empty.insertAll pairs

/-! ### What an insertion changes -/

theorem find?_insertEntry (name query : String) (value : α) (entries : List (String × α)) :
    ((insertEntry name value entries).find? (·.1 = query)).map (·.2)
      = if name = query then some value else (entries.find? (·.1 = query)).map (·.2) := by
  induction entries with
  | nil => by_cases h : name = query <;> simp [insertEntry, h]
  | cons e rest ih =>
    obtain ⟨n, v⟩ := e
    by_cases hn : n = name
    · subst hn
      by_cases h : n = query <;> simp [insertEntry, h]
    · rw [insertEntry, if_neg hn]
      by_cases h : n = query
      · have : name ≠ query := fun h' => hn (h.trans h'.symm)
        simp [h, this]
      · simpa [h] using ih

/-- A name that was inserted has its new value, and every other one what it had. -/
theorem find?_insert (t : Table α) (name query : String) (value : α) :
    (t.insert name value).find? query = if name = query then some value else t.find? query :=
  find?_insertEntry name query value t.entries

theorem map_fst_insertEntry (name : String) (value : α) (entries : List (String × α)) :
    (insertEntry name value entries).map (·.1)
      = if name ∈ entries.map (·.1) then entries.map (·.1) else entries.map (·.1) ++ [name] := by
  induction entries with
  | nil => simp [insertEntry]
  | cons e rest ih =>
    obtain ⟨n, v⟩ := e
    by_cases hn : n = name
    · simp [insertEntry, hn]
    · have hn' : name ≠ n := fun h => hn h.symm
      by_cases hr : name ∈ rest.map (·.1) <;> simp_all [insertEntry]

/-- A new name is the last one; a name that is there keeps its place. -/
theorem names_insert (t : Table α) (name : String) (value : α) :
    (t.insert name value).names = if name ∈ t.names then t.names else t.names ++ [name] :=
  map_fst_insertEntry name value t.entries

end Table

end StackScript
