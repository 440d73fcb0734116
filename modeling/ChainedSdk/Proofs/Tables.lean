import ChainedSdk.Table
import Mathlib.Data.List.Nodup
/-!
# Filling tables

What a table holds after a list of entries has been put into it, and why it does not matter whether
entries are put in one after the other or collected in a table of their own first.
-/

namespace ChainedSdk.Table

variable {α : Type}

@[simp] theorem insertAll_nil (table : Table α) : table.insertAll [] = table := rfl

@[simp] theorem insertAll_cons (table : Table α) (key : String) (value : α)
    (rest : List (String × α)) :
    table.insertAll ((key, value) :: rest) = (table.insert key value).insertAll rest := rfl

theorem insertAll_append (table : Table α) (entries more : List (String × α)) :
    table.insertAll (entries ++ more) = (table.insertAll entries).insertAll more :=
  List.foldl_append

/-! ## What is found -/

/-- A name that keeps its value, if it has one, and gets none otherwise is found as before. -/
theorem get?_eq_of_keeps {before after : Table α} {name : String}
    (keeps : ∀ value, before.get? name = some value → after.get? name = some value)
    (adds : (after.get? name).isSome → (before.get? name).isSome) :
    after.get? name = before.get? name := by
  cases held : before.get? name with
  | some value => exact keeps value held
  | none =>
    cases now : after.get? name with
    | none => rfl
    | some value =>
      have early := adds (now ▸ rfl)
      rw [held] at early
      cases early

private theorem lookup_eq_some_iff {key : String} {value : α} {entries : List (String × α)}
    (distinct : (entries.map Prod.fst).Nodup) :
    entries.lookup key = some value ↔ (key, value) ∈ entries := by
  induction entries with
  | nil => simp
  | cons entry rest ih =>
    obtain ⟨name, held⟩ := entry
    have parts := List.nodup_cons.mp distinct
    by_cases same : key = name
    · subst same
      simp only [List.lookup_cons_self, Option.some.injEq, List.mem_cons, Prod.mk.injEq, true_and]
      constructor
      · intro equal
        exact Or.inl equal.symm
      · rintro (equal | later)
        · exact equal.symm
        · exact absurd (List.mem_map_of_mem (f := Prod.fst) later) parts.1
    · have passed : ((name, held) :: rest).lookup key = rest.lookup key := by
        simp [List.lookup_cons, beq_false_of_ne same]
      rw [passed, ih parts.2, List.mem_cons]
      simp [same]

theorem get?_eq_some_iff (table : Table α) (key : String) (value : α) :
    table.get? key = some value ↔ (key, value) ∈ table.toList :=
  lookup_eq_some_iff table.nodup_keys

theorem mem_values_iff (table : Table α) (value : α) :
    value ∈ table.values ↔ ∃ key, table.get? key = some value := by
  constructor
  · intro member
    obtain ⟨⟨key, held⟩, isEntry, rfl⟩ := List.mem_map.mp member
    exact ⟨key, (get?_eq_some_iff table key held).mpr isEntry⟩
  · rintro ⟨key, found⟩
    exact List.mem_map_of_mem (f := Prod.snd) ((get?_eq_some_iff table key value).mp found)

theorem mem_keys_iff (table : Table α) (key : String) :
    key ∈ table.keys ↔ ∃ value, table.get? key = some value := by
  rw [← contains_iff_mem_keys, contains, Option.isSome_iff_exists]

theorem get?_eq_none_of_not_mem {table : Table α} {key : String} (absent : key ∉ table.keys) :
    table.get? key = none := by
  cases found : table.get? key with
  | none => rfl
  | some value => exact absurd ((mem_keys_iff table key).mpr ⟨value, found⟩) absent

theorem get?_insert_of_ne (table : Table α) {key other : String} (value : α)
    (differ : other ≠ key) : (table.insert key value).get? other = table.get? other := by
  rw [get?_insert, if_neg differ]

private theorem lookup_filter_ne (key other : String) (entries : List (String × α)) :
    (entries.filter fun entry => entry.1 ≠ key).lookup other =
      if other = key then none else entries.lookup other := by
  induction entries with
  | nil => simp
  | cons entry rest ih =>
    obtain ⟨name, held⟩ := entry
    by_cases erased : name = key
    · rw [List.filter_cons_of_neg (by simp [erased]), ih]
      by_cases same : other = key
      · rw [if_pos same, if_pos same]
      · rw [if_neg same, if_neg same, List.lookup_cons, erased, beq_false_of_ne same]
    · rw [List.filter_cons_of_pos (by simp [erased]), List.lookup_cons, List.lookup_cons, ih]
      by_cases found : other = name
      · subst found
        simp [erased]
      · rw [beq_false_of_ne found]

theorem get?_erase (table : Table α) (key other : String) :
    (table.erase key).get? other = if other = key then none else table.get? other :=
  lookup_filter_ne key other table.toList

theorem mem_keys_insert (table : Table α) (key other : String) (value : α) :
    other ∈ (table.insert key value).keys ↔ other ∈ table.keys ∨ other = key := by
  rw [keys_insert]
  split
  · next known => exact (or_iff_left_of_imp fun same => same ▸ known).symm
  · rw [List.mem_append, List.mem_singleton]

theorem mem_keys_erase (table : Table α) (key other : String) :
    other ∈ (table.erase key).keys ↔ other ≠ key ∧ other ∈ table.keys := by
  rw [mem_keys_iff, mem_keys_iff, get?_erase]
  by_cases same : other = key
  · simp [same]
  · simp [same]

/-- The last value of a key among some entries counts, and then the one from before. -/
theorem get?_insertAll (table : Table α) (entries : List (String × α)) (key : String) :
    (table.insertAll entries).get? key = (entries.reverse.lookup key).or (table.get? key) := by
  induction entries generalizing table with
  | nil => rfl
  | cons entry rest ih =>
    obtain ⟨name, held⟩ := entry
    rw [insertAll_cons, ih, get?_insert, List.reverse_cons, List.lookup_append, Option.or_assoc]
    by_cases same : key = name
    · simp [same]
    · simp [same, List.lookup_cons, beq_false_of_ne same]

/-- A key that is not among some entries keeps its value. -/
theorem get?_insertAll_of_not_mem (table : Table α) {key : String} {entries : List (String × α)}
    (absent : key ∉ entries.map Prod.fst) : (table.insertAll entries).get? key = table.get? key := by
  have missing : entries.reverse.lookup key = none := by
    refine List.lookup_eq_none_iff.mpr fun entry member => bne_iff_ne.mpr fun same => absent ?_
    exact same ▸ List.mem_map_of_mem (List.mem_reverse.mp member)
  rw [get?_insertAll, missing, Option.none_or]

/-- Entries whose values depend on their keys alone. -/
theorem get?_insertAll_map {β : Type} (table : Table α) (items : List β) (name : β → String)
    (value : String → α) (key : String) :
    (table.insertAll (items.map fun item => (name item, value (name item)))).get? key =
      if key ∈ items.map name then some (value key) else table.get? key := by
  induction items generalizing table with
  | nil => rfl
  | cons item rest ih =>
    rw [List.map_cons, insertAll_cons, ih, get?_insert, List.map_cons]
    by_cases later : key ∈ rest.map name
    · simp only [later, List.mem_cons, or_true, if_true]
    · by_cases same : key = name item
      · simp [same]
      · simp only [later, same, List.mem_cons, or_self, if_false]

/-- What is found under a key was there before or is the value of an entry. -/
theorem get?_insertAll_mem (table : Table α) {key : String} {value : α}
    {entries : List (String × α)} (found : (table.insertAll entries).get? key = some value) :
    (key, value) ∈ entries ∨ table.get? key = some value := by
  rw [get?_insertAll, Option.or_eq_some_iff] at found
  refine found.imp (fun isEntry => ?_) And.right
  obtain ⟨later, earlier, parts, _⟩ := List.lookup_eq_some_iff.mp isEntry
  exact List.mem_reverse.mp (parts ▸ List.mem_append_right later List.mem_cons_self)

theorem isSome_get?_insertAll (table : Table α) {key : String} {entries : List (String × α)}
    (present : key ∈ entries.map Prod.fst ∨ (table.get? key).isSome) :
    ((table.insertAll entries).get? key).isSome := by
  rw [get?_insertAll, Option.isSome_or, Bool.or_eq_true]
  refine present.imp_left fun member => ?_
  obtain ⟨entry, isEntry, rfl⟩ := List.mem_map.mp member
  exact List.lookup_isSome_iff.mpr ⟨entry, List.mem_reverse.mpr isEntry, beq_self_eq_true _⟩

theorem get?_insertAll_of_mem (table : Table α) {key : String} {value : α}
    {entries : List (String × α)} (distinct : (entries.map Prod.fst).Nodup)
    (member : (key, value) ∈ entries) : (table.insertAll entries).get? key = some value := by
  have distinctReverse : (entries.reverse.map Prod.fst).Nodup := by
    rw [List.map_reverse]
    exact List.nodup_reverse.mpr distinct
  rw [get?_insertAll, (lookup_eq_some_iff distinctReverse).mpr (List.mem_reverse.mpr member)]
  rfl

theorem mem_of_mem_ofList {entries : List (String × α)} {entry : String × α}
    (member : entry ∈ (ofList entries).toList) : entry ∈ entries := by
  have found := (get?_eq_some_iff _ entry.1 entry.2).mpr member
  rcases get?_insertAll_mem _ found with present | impossible
  · exact present
  · cases impossible

/-! ## What a list of entries comes to -/

private theorem eraseDups_eq_of_nodup {items : List String} (distinct : items.Nodup) :
    items.eraseDups = items := by
  induction items with
  | nil => rfl
  | cons first rest ih =>
    have parts := List.nodup_cons.mp distinct
    have others : rest.filter (fun item => !item == first) = rest := by
      refine List.filter_eq_self.mpr fun item member => ?_
      have differ : item ≠ first := fun same => parts.1 (same ▸ member)
      simpa using differ
    rw [List.eraseDups_cons, others, ih parts.2]

/-- Keys stand in the order in which they were first given. -/
theorem keys_insertAll (table : Table α) (entries : List (String × α)) :
    (table.insertAll entries).keys = (table.keys ++ entries.map Prod.fst).eraseDups := by
  induction entries generalizing table with
  | nil =>
    rw [insertAll_nil, List.map_nil, List.append_nil, eraseDups_eq_of_nodup table.keys_nodup]
  | cons entry rest ih =>
    obtain ⟨key, value⟩ := entry
    rw [insertAll_cons, ih, keys_insert, List.map_cons]
    split
    · next known =>
      rw [List.eraseDups_append, List.eraseDups_append, List.cons_removeAll]
      simp [known]
    · rw [List.append_assoc, List.singleton_append]

/-- The order of the keys and what stands under them make a table. -/
theorem ext_get? {left right : Table α} (sameKeys : left.keys = right.keys)
    (sameValues : ∀ key, left.get? key = right.get? key) : left = right := by
  have shown (table : Table α) : table.toList.map (fun entry => (entry.1, some entry.2)) =
      table.keys.map fun key => (key, table.get? key) := by
    rw [keys, List.map_map]
    refine List.map_congr_left fun entry member => ?_
    rw [Function.comp_apply, (get?_eq_some_iff table entry.1 entry.2).mpr member]
  have injective : Function.Injective fun entry : String × α => (entry.1, some entry.2) := by
    rintro ⟨key, value⟩ ⟨other, held⟩ same
    simpa using same
  refine ext_toList (List.map_injective_iff.mpr injective ?_)
  rw [shown, shown, sameKeys]
  exact List.map_congr_left fun key _ => by rw [sameValues]

theorem eq_ofList_iff {table : Table α} {entries : List (String × α)} : table = ofList entries ↔
    table.keys = (entries.map Prod.fst).eraseDups ∧
      ∀ key, table.get? key = entries.reverse.lookup key := by
  have sameKeys : (ofList entries).keys = (entries.map Prod.fst).eraseDups :=
    keys_insertAll ∅ entries
  have sameValues (key : String) : (ofList entries).get? key = entries.reverse.lookup key :=
    (get?_insertAll ∅ entries key).trans Option.or_none
  constructor
  · rintro rfl
    exact ⟨sameKeys, sameValues⟩
  · rintro ⟨keysEq, valuesEq⟩
    exact ext_get? (keysEq.trans sameKeys.symm) fun key =>
      (valuesEq key).trans (sameValues key).symm

/-! ## New entries come last -/

private theorem setEntry_of_not_mem {key : String} (value : α) {entries : List (String × α)}
    (fresh : key ∉ entries.map Prod.fst) :
    setEntry key value entries = entries ++ [(key, value)] := by
  induction entries with
  | nil => rfl
  | cons entry rest ih =>
    rw [List.map_cons, List.mem_cons, not_or] at fresh
    rw [setEntry, if_neg (Ne.symm fresh.1), ih fresh.2, List.cons_append]

theorem toList_insert_of_none {table : Table α} {key : String} (value : α)
    (fresh : table.get? key = none) :
    (table.insert key value).toList = table.toList ++ [(key, value)] := by
  refine setEntry_of_not_mem value fun member => ?_
  obtain ⟨held, found⟩ := (mem_keys_iff table key).mp member
  rw [fresh] at found
  cases found

private theorem toList_insertAll (table : Table α) {entries : List (String × α)}
    (distinct : ((table.toList ++ entries).map Prod.fst).Nodup) :
    (table.insertAll entries).toList = table.toList ++ entries := by
  induction entries generalizing table with
  | nil => exact (List.append_nil _).symm
  | cons entry rest ih =>
    obtain ⟨key, value⟩ := entry
    have fresh : table.get? key = none := by
      cases found : table.get? key with
      | none => rfl
      | some held =>
        rw [List.map_append] at distinct
        exact absurd List.mem_cons_self (List.disjoint_of_nodup_append distinct
          ((mem_keys_iff table key).mpr ⟨held, found⟩))
    have inserted := toList_insert_of_none value fresh
    rw [insertAll_cons, ih, inserted, List.append_assoc]
    · rfl
    · rw [inserted, List.append_assoc]
      exact distinct

theorem toList_ofList {entries : List (String × α)} (distinct : (entries.map Prod.fst).Nodup) :
    (ofList entries).toList = entries :=
  toList_insertAll ∅ distinct

/-- The entries of a table describe it. -/
theorem get?_ofList_iff {entries : List (String × α)} (distinct : (entries.map Prod.fst).Nodup)
    {key : String} {value : α} : (ofList entries).get? key = some value ↔ (key, value) ∈ entries := by
  rw [get?_eq_some_iff, toList_ofList distinct]

/-- What stands under distinct keys does not depend on the order of the entries. -/
theorem get?_ofList_of_perm {entries others : List (String × α)}
    (distinct : (entries.map Prod.fst).Nodup) (same : entries.Perm others) (key : String) :
    (ofList others).get? key = (ofList entries).get? key := by
  have otherDistinct := (same.map Prod.fst).nodup_iff.mp distinct
  ext value
  rw [get?_ofList_iff distinct, get?_ofList_iff otherDistinct, same.mem_iff]

theorem ofList_toList (table : Table α) : ofList table.toList = table :=
  ext_toList (toList_insertAll ∅ table.nodup_keys)

private theorem flatMap_getD_filter {β : Type} (table : Table (List β)) (names : List String) :
    names.flatMap (fun name => (table.get? name).getD []) =
      (names.filter table.contains).flatMap fun name => (table.get? name).getD [] := by
  induction names with
  | nil => rfl
  | cons name rest ih =>
    cases found : table.get? name with
    | none =>
      have absent : ¬table.contains name := by simp [contains, found]
      rw [List.filter_cons_of_neg absent, List.flatMap_cons, found, ih]
      rfl
    | some held =>
      have present : table.contains name := by simp [contains, found]
      rw [List.filter_cons_of_pos present, List.flatMap_cons, List.flatMap_cons, ih]

/-- Looking up distinct names, among which all keys are, finds every value once. -/
theorem flatMap_getD_perm {β : Type} (table : Table (List β)) {names : List String}
    (distinct : names.Nodup) (known : table.keys ⊆ names) :
    (names.flatMap fun name => (table.get? name).getD []).Perm
      (table.toList.flatMap Prod.snd) := by
  have held : table.keys.flatMap (fun name => (table.get? name).getD []) =
      table.toList.flatMap Prod.snd := by
    rw [keys, List.flatMap_map]
    apply List.flatMap_congr
    intro entry member
    rw [(get?_eq_some_iff table entry.1 entry.2).mpr member, Option.getD_some]
  have kept : (names.filter table.contains).Perm table.keys := by
    apply (List.perm_ext_iff_of_nodup (distinct.filter _) table.keys_nodup).mpr
    intro name
    rw [List.mem_filter, contains_iff_mem_keys]
    exact ⟨And.right, fun isKey => ⟨known isKey, isKey⟩⟩
  rw [flatMap_getD_filter, ← held]
  exact kept.flatMap_right _

/-! ## Filling in another order -/

private theorem setEntry_comm {key other : String} (value held : α)
    {entries : List (String × α)} (known : key ∈ entries.map Prod.fst) (differ : other ≠ key) :
    setEntry key value (setEntry other held entries) =
      setEntry other held (setEntry key value entries) := by
  induction entries with
  | nil => cases known
  | cons entry rest ih =>
    obtain ⟨name, here⟩ := entry
    by_cases sameKey : name = key
    · subst sameKey
      simp [setEntry, differ.symm]
    · have later : key ∈ rest.map Prod.fst := by
        rw [List.map_cons, List.mem_cons] at known
        exact known.resolve_left fun same => sameKey same.symm
      by_cases sameOther : name = other
      · subst sameOther
        simp [setEntry, sameKey]
      · simp [setEntry, sameKey, sameOther, ih later]

private theorem setEntry_setEntry (key : String) (value held : α)
    (entries : List (String × α)) :
    setEntry key value (setEntry key held entries) = setEntry key value entries := by
  induction entries with
  | nil => simp [setEntry]
  | cons entry rest ih =>
    by_cases same : entry.1 = key
    · simp [setEntry, same]
    · simp [setEntry, same, ih]

theorem insert_insert (table : Table α) (key : String) (value held : α) :
    (table.insert key held).insert key value = table.insert key value :=
  ext_toList (setEntry_setEntry key value held table.toList)

/-- A known key may be given its value before or after other keys. -/
theorem insert_insertAll_comm (table : Table α) {key : String} (value : α)
    {entries : List (String × α)} (known : key ∈ table.keys)
    (absent : key ∉ entries.map Prod.fst) :
    (table.insertAll entries).insert key value = (table.insert key value).insertAll entries := by
  induction entries generalizing table with
  | nil => rfl
  | cons entry rest ih =>
    obtain ⟨name, held⟩ := entry
    rw [List.map_cons, List.mem_cons, not_or] at absent
    have stillKnown : key ∈ (table.insert name held).keys :=
      (mem_keys_insert table name key held).mpr (Or.inl known)
    rw [insertAll_cons, insertAll_cons, ih _ stillKnown absent.2]
    congr 1
    exact ext_toList (setEntry_comm value held known fun same => absent.1 same.symm)

private theorem insertAll_setEntry (table : Table α) (key : String) (value : α)
    {entries : List (String × α)} (distinct : (entries.map Prod.fst).Nodup) :
    table.insertAll (setEntry key value entries) = (table.insertAll entries).insert key value := by
  induction entries generalizing table with
  | nil => rfl
  | cons entry rest ih =>
    obtain ⟨name, held⟩ := entry
    have parts := List.nodup_cons.mp distinct
    by_cases same : name = key
    · subst same
      have known : name ∈ (table.insert name held).keys := by
        rw [mem_keys_iff]
        exact ⟨held, get?_insert_self table name held⟩
      rw [insertAll_cons, insert_insertAll_comm _ value known parts.1, insert_insert]
      simp [setEntry]
    · rw [setEntry, if_neg same, insertAll_cons, insertAll_cons, ih _ parts.2]

/-- Entries that are collected in a table first give the same as entries put in directly. -/
theorem merge_insertAll (table addition : Table α) (entries : List (String × α)) :
    table.merge (addition.insertAll entries) = (table.merge addition).insertAll entries := by
  induction entries generalizing addition with
  | nil => rfl
  | cons entry rest ih =>
    obtain ⟨name, held⟩ := entry
    rw [insertAll_cons, insertAll_cons, ih]
    congr 1
    exact insertAll_setEntry table name held addition.nodup_keys

theorem merge_ofList (table : Table α) (entries : List (String × α)) :
    table.merge (ofList entries) = table.insertAll entries :=
  merge_insertAll table ∅ entries

end ChainedSdk.Table
