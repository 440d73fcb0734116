import ChainedSdk.Proofs.Descent
/-!
# Places

Where the nested sites of a definition can stand: at a block of a field in the definition or in a
fragment, which fixes the type that the block selects from. There are no more places than fields,
and every descent stays among them.
-/

namespace ChainedSdk

/-- A selection set with the type that it selects from. -/
abbrev Place := TypeDescriptor × List Selection

/-- Where a site selects. -/
def ModelSite.place (site : ModelSite) : Place := (site.owner, site.selections)

namespace Context

/-- The type that the block of a field selects from. -/
def blockType? (context : Context) (owner : TypeDescriptor) (head : FieldHead) :
    Option TypeDescriptor :=
  if head.name = typenameField then none
  else (owner.field? head.name).bind fun declared => context.type? declared.typeName

mutual

/-- The places of the blocks in a selection, at any depth. -/
def placesIn (context : Context) : TypeDescriptor → Selection → List Place
  | _, .field _ none => []
  | owner, .field head (some block) =>
    match context.blockType? owner head with
    | none => []
    | some type => (type, block) :: context.places type block
  | _, .spread _ _ => []
  | owner, .inlineFragment condition? _ selections =>
    match context.innerOwner? condition? owner with
    | none => []
    | some innerOwner => context.places innerOwner selections

def places (context : Context) : TypeDescriptor → List Selection → List Place
  | _, [] => []
  | owner, selection :: rest => context.placesIn owner selection ++ context.places owner rest

end

def fragmentPlaces (context : Context) : List Place :=
  context.fragments.values.flatMap fun fragment =>
    match context.type? fragment.typeCondition with
    | none => []
    | some owner => context.places owner fragment.selections

variable {context : Context} {owner : TypeDescriptor} {selections : List Selection}

/-! ## How many there are -/

mutual

theorem length_placesIn_le (context : Context) : ∀ (owner : TypeDescriptor)
    (selection : Selection), (context.placesIn owner selection).length ≤ selection.fieldCount
  | _, .field _ none => Nat.zero_le _
  | owner, .field head (some block) => by
    rw [placesIn, Selection.fieldCount]
    split
    · exact Nat.zero_le _
    · next type _ =>
      have inside := context.length_places_le type block
      rw [List.length_cons]
      omega
  | _, .spread _ _ => Nat.zero_le _
  | owner, .inlineFragment condition? _ selections => by
    rw [placesIn, Selection.fieldCount]
    split
    · exact Nat.zero_le _
    · next innerOwner _ => exact context.length_places_le innerOwner selections

theorem length_places_le (context : Context) : ∀ (owner : TypeDescriptor)
    (selections : List Selection),
    (context.places owner selections).length ≤ Selection.fieldCounts selections
  | _, [] => Nat.zero_le _
  | owner, selection :: rest => by
    have first := context.length_placesIn_le owner selection
    have further := context.length_places_le owner rest
    rw [places, Selection.fieldCounts, List.length_append]
    omega

end

theorem length_fragmentPlaces_le (context : Context) :
    context.fragmentPlaces.length ≤
      (context.fragments.values.map fun fragment =>
        Selection.fieldCounts fragment.selections).foldr (· + ·) 0 := by
  unfold fragmentPlaces
  induction context.fragments.values with
  | nil => exact Nat.le_refl _
  | cons fragment rest ih =>
    rw [List.flatMap_cons, List.length_append, List.map_cons, List.foldr_cons]
    refine Nat.add_le_add ?_ ih
    split
    · exact Nat.zero_le _
    · next owner _ => exact context.length_places_le owner fragment.selections

/-! ## Descents stay among them -/

/-- The block of a selected field stands in the selection set itself or in a fragment. -/
theorem Inlines.places_subset {entries : List (String × Pick)}
    (inlines : context.Inlines owner selections entries) {key : String} {pick : Pick}
    (member : (key, pick) ∈ entries) {block : List Selection}
    (isBlock : pick.selections? = some block) {type : TypeDescriptor}
    (typed : context.blockType? pick.owner pick.head = some type) :
    (type, block) :: context.places type block ⊆
      context.places owner selections ++ context.fragmentPlaces := by
  induction inlines with
  | nil => cases member
  | @field owner head selections? rest later _ ih =>
    rw [places, List.append_assoc]
    rcases List.mem_cons.mp member with here | further
    · cases here
      cases isBlock
      dsimp only at typed
      rw [placesIn, typed]
      exact List.subset_append_left _ _
    · exact List.Subset.trans (ih further) (List.subset_append_right _ _)
  | @inlineFragment owner innerOwner condition? directives selections rest inner later known _ _
      ihInside ihLater =>
    rw [places, List.append_assoc]
    rcases List.mem_append.mp member with inside | further
    · rw [placesIn, known]
      refine List.Subset.trans (ihInside inside) ?_
      exact List.append_subset.mpr ⟨List.subset_append_left _ _,
        List.subset_append_of_subset_right _ (List.subset_append_right _ _)⟩
    · exact List.Subset.trans (ihLater further) (List.subset_append_right _ _)
  | @spread owner fragmentOwner name directives fragment rest inner later found known _ _ ihInside
      ihLater =>
    rw [places, List.append_assoc]
    rcases List.mem_append.mp member with inside | further
    · refine List.Subset.trans (ihInside inside) ?_
      have inFragments : context.places fragmentOwner fragment.selections ⊆
          context.fragmentPlaces := by
        intro place isPlace
        refine List.mem_flatMap.mpr ⟨fragment, (Table.mem_values_iff _ _).mpr ⟨name, found⟩, ?_⟩
        rw [known]
        exact isPlace
      exact List.append_subset.mpr
        ⟨List.subset_append_of_subset_right _ (List.subset_append_of_subset_right _ inFragments),
          List.subset_append_of_subset_right _ (List.subset_append_right _ _)⟩
    · exact List.Subset.trans (ihLater further) (List.subset_append_right _ _)

/-- Which block and type a nested site comes from. -/
theorem blockType?_of_resolve {site inner : ModelSite} {key : String} {pick : Pick}
    {field : ModelField} (resolved : context.resolve site key pick = .ok (field, some inner)) :
    pick.selections? = some inner.selections ∧
      context.blockType? pick.owner pick.head = some inner.owner := by
  rcases resolve_eq_ok resolved with
    ⟨_, impossible, _⟩ | ⟨ordinary, declared, type, isDeclared, known, isNested, _⟩
  · cases impossible
  · obtain ⟨block, isBlock, same⟩ := Option.map_eq_some_iff.mp isNested.symm
    cases same
    refine ⟨isBlock, ?_⟩
    unfold blockType?
    rw [if_neg ordinary, isDeclared]
    exact known

/-- A descent goes into the block of a selected field. -/
theorem Descends.exists_pick {site inner : ModelSite} {made half : Table Model}
    (descends : context.Descends site made inner half) :
    ∃ entries key pick, context.Inlines site.owner site.selections entries ∧
      (key, pick) ∈ entries ∧ pick.selections? = some inner.selections ∧
      context.blockType? pick.owner pick.head = some inner.owner := by
  cases descends with
  | @into _ _ _ entries _ _ key pick _ _ _ inlines parts _ resolved =>
    have isEntry : (key, pick) ∈ (Table.ofList entries).toList := by
      rw [parts]
      exact List.mem_append_right _ List.mem_cons_self
    exact ⟨entries, key, pick, inlines, Table.mem_of_mem_ofList isEntry, blockType?_of_resolve resolved⟩

theorem Descends.places_subset {site inner : ModelSite} {made half : Table Model}
    (descends : context.Descends site made inner half) :
    inner.place :: context.places inner.owner inner.selections ⊆
      context.places site.owner site.selections ++ context.fragmentPlaces := by
  obtain ⟨entries, key, pick, inlines, isEntry, isBlock, typed⟩ := descends.exists_pick
  exact inlines.places_subset isEntry isBlock typed

end Context

end ChainedSdk
