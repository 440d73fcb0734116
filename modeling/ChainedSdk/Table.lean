/-!
# Tables

Finite maps from names that remember the order in which their keys were first given. Giving a key a
second value replaces the value and keeps the place. The main statements say what `insert` does to
`get?` and to `keys`.
-/

namespace ChainedSdk

/-- Entries with one key replaced at its place, or added at the end when it is new. -/
def Table.setEntry {α : Type} (key : String) (value : α) :
    List (String × α) → List (String × α)
  | [] => [(key, value)]
  | entry :: rest =>
    if entry.1 = key then (key, value) :: rest else entry :: Table.setEntry key value rest

theorem Table.map_fst_setEntry {α : Type} (key : String) (value : α)
    (entries : List (String × α)) :
    (Table.setEntry key value entries).map Prod.fst =
      if key ∈ entries.map Prod.fst then entries.map Prod.fst
      else entries.map Prod.fst ++ [key] := by
  induction entries with
  | nil => simp [Table.setEntry]
  | cons entry rest ih =>
    by_cases same : entry.1 = key
    · simp [Table.setEntry, same]
    · have other : key ≠ entry.1 := fun equal => same equal.symm
      simp only [Table.setEntry, same, if_false, List.map_cons, ih, List.mem_cons, other, false_or]
      split <;> simp

/-- A finite map from names, in the order of first insertion. -/
structure Table (α : Type) where
  toList : List (String × α)
  nodup_keys : (toList.map Prod.fst).Nodup

namespace Table

variable {α : Type}

def empty : Table α := ⟨[], by simp⟩

instance : EmptyCollection (Table α) := ⟨Table.empty⟩

instance : Inhabited (Table α) := ⟨Table.empty⟩

instance [BEq α] : BEq (Table α) := ⟨fun left right => left.toList == right.toList⟩

instance [DecidableEq α] : DecidableEq (Table α) := fun left right =>
  match left, right with
  | ⟨leftEntries, _⟩, ⟨rightEntries, _⟩ =>
    if same : leftEntries = rightEntries then isTrue (by subst same; rfl)
    else isFalse (fun equal => same (congrArg Table.toList equal))

theorem ext_toList {left right : Table α} (same : left.toList = right.toList) : left = right := by
  cases left; cases right; simp_all

def keys (table : Table α) : List String := table.toList.map Prod.fst

def values (table : Table α) : List α := table.toList.map Prod.snd

def size (table : Table α) : Nat := table.toList.length

def isEmpty (table : Table α) : Bool := table.toList.isEmpty

def get? (table : Table α) (key : String) : Option α := table.toList.lookup key

def contains (table : Table α) (key : String) : Bool := (table.get? key).isSome

/-- Gives a key a value: a new key comes last, a known key keeps its place. -/
def insert (table : Table α) (key : String) (value : α) : Table α where
  toList := setEntry key value table.toList
  nodup_keys := by
    rw [map_fst_setEntry]
    split
    · exact table.nodup_keys
    · next absent =>
      refine List.nodup_append.mpr ⟨table.nodup_keys, by simp, ?_⟩
      intro first present second last
      simp only [List.mem_singleton] at last
      subst last
      exact fun equal => absent (equal ▸ present)

def erase (table : Table α) (key : String) : Table α where
  toList := table.toList.filter fun entry => entry.1 ≠ key
  nodup_keys := List.Nodup.sublist (List.filter_sublist.map Prod.fst) table.nodup_keys

/-- Gives every key of a list its value, one after the other: the last value of a key counts, at the
place where the key came first. -/
def insertAll (table : Table α) (entries : List (String × α)) : Table α :=
  entries.foldl (fun built entry => built.insert entry.1 entry.2) table

def ofList (entries : List (String × α)) : Table α := empty.insertAll entries

/-- Gives every key of a second table its value there. -/
def merge (table addition : Table α) : Table α := table.insertAll addition.toList

@[simp] theorem toList_empty : (∅ : Table α).toList = [] := rfl

@[simp] theorem get?_empty (key : String) : (∅ : Table α).get? key = none := rfl

@[simp] theorem keys_empty : (∅ : Table α).keys = [] := rfl

theorem keys_nodup (table : Table α) : table.keys.Nodup := table.nodup_keys

private theorem lookup_cons_of_ne {key name : String} (differ : ¬key = name) (held : α)
    (rest : List (String × α)) : ((name, held) :: rest).lookup key = rest.lookup key := by
  simp [List.lookup_cons, beq_false_of_ne differ]

private theorem lookup_setEntry (key other : String) (value : α) (entries : List (String × α)) :
    (setEntry key value entries).lookup other =
      if other = key then some value else entries.lookup other := by
  induction entries with
  | nil =>
    by_cases same : other = key
    · simp [setEntry, same]
    · simp [setEntry, lookup_cons_of_ne same, same]
  | cons entry rest ih =>
    obtain ⟨name, held⟩ := entry
    by_cases here : name = key
    · subst here
      by_cases same : other = name
      · simp [setEntry, same]
      · simp [setEntry, lookup_cons_of_ne same, same]
    · by_cases same : other = name
      · subst same
        simp [setEntry, here]
      · simp [setEntry, here, lookup_cons_of_ne same, ih]

theorem get?_insert (table : Table α) (key other : String) (value : α) :
    (table.insert key value).get? other = if other = key then some value else table.get? other :=
  lookup_setEntry key other value table.toList

@[simp] theorem get?_insert_self (table : Table α) (key : String) (value : α) :
    (table.insert key value).get? key = some value := by
  simp [get?_insert]

theorem keys_insert (table : Table α) (key : String) (value : α) :
    (table.insert key value).keys =
      if key ∈ table.keys then table.keys else table.keys ++ [key] :=
  map_fst_setEntry key value table.toList

private theorem isSome_lookup_iff (key : String) (entries : List (String × α)) :
    (entries.lookup key).isSome = true ↔ key ∈ entries.map Prod.fst := by
  induction entries with
  | nil => simp
  | cons entry rest ih =>
    obtain ⟨name, held⟩ := entry
    by_cases same : key = name
    · simp [same]
    · rw [lookup_cons_of_ne same, ih, List.map_cons, List.mem_cons]
      simp [same]

theorem contains_iff_mem_keys (table : Table α) (key : String) :
    table.contains key = true ↔ key ∈ table.keys :=
  isSome_lookup_iff key table.toList

end Table

end ChainedSdk
