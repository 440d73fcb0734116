import ChainedSdk.Proofs.Declarations
import ChainedSdk.Proofs.SchemaTypes
import Mathlib.Data.List.Induction
/-!
# Drafts hold what is declared

After some definitions of a schema, the draft holds the types that they declare, in the order of
their names, and puts the extensions aside whose names they do not define. So a schema has a draft
unless it defines a name twice.
-/

namespace ChainedSdk

namespace SchemaDraft

variable {scalars : ScalarTypes} {draft after : SchemaDraft} {definitions : List Definition}
  {definition : Definition} {type : TypeDescriptor}

/-! ## Single types -/

theorem exists_describeField {name : String} {reference : TypeRef} {description? : Option String}
    (shaped : reference.unwrap? ≠ none) :
    ∃ field, describeField name reference description? = .ok field := by
  obtain ⟨found, isFound⟩ := Option.ne_none_iff_exists'.mp shaped
  exact ⟨_, by rw [describeField, shape, isFound]; rfl⟩

theorem exists_describeFields {fields : List FieldDefinition}
    (shaped : ∀ type ∈ fields.map (·.type), type.unwrap? ≠ none) :
    ∃ described, describeFields fields = .ok described :=
  Outcome.exists_mapM_eq_ok fun _ member =>
    exists_describeField (shaped _ (List.mem_map_of_mem member))

theorem exists_describeInputs {fields : List InputValueDefinition}
    (shaped : ∀ type ∈ fields.map (·.type), type.unwrap? ≠ none) :
    ∃ described, describeInputs fields = .ok described :=
  Outcome.exists_mapM_eq_ok fun _ member =>
    exists_describeField (shaped _ (List.mem_map_of_mem member))

theorem exists_describe {declared : TypeDefinition} (shaped : declared.body.Shaped) :
    ∃ type, describe scalars declared = .ok type := by
  obtain ⟨description?, name, directives, body⟩ := declared
  cases body with
  | object interfaces fields =>
    obtain ⟨described, isDescribed⟩ := exists_describeFields shaped
    exact ⟨_, Outcome.bind_eq_ok_iff.mpr ⟨described, isDescribed, rfl⟩⟩
  | interface interfaces fields =>
    obtain ⟨described, isDescribed⟩ := exists_describeFields shaped
    exact ⟨_, Outcome.bind_eq_ok_iff.mpr ⟨described, isDescribed, rfl⟩⟩
  | input fields =>
    obtain ⟨described, isDescribed⟩ := exists_describeInputs shaped
    exact ⟨_, Outcome.bind_eq_ok_iff.mpr ⟨described, isDescribed, rfl⟩⟩
  | _ => exact ⟨_, rfl⟩

theorem exists_extend {extension : TypeExtension} (shaped : extension.body.Shaped)
    (type : TypeDescriptor) : ∃ extended, extend type extension = .ok extended := by
  obtain ⟨name, directives, body⟩ := extension
  cases body with
  | object interfaces fields =>
    obtain ⟨described, isDescribed⟩ := exists_describeFields shaped
    exact ⟨_, Outcome.bind_eq_ok_iff.mpr ⟨described, isDescribed, rfl⟩⟩
  | interface interfaces fields =>
    obtain ⟨described, isDescribed⟩ := exists_describeFields shaped
    exact ⟨_, Outcome.bind_eq_ok_iff.mpr ⟨described, isDescribed, rfl⟩⟩
  | input fields =>
    obtain ⟨described, isDescribed⟩ := exists_describeInputs shaped
    exact ⟨_, Outcome.bind_eq_ok_iff.mpr ⟨described, isDescribed, rfl⟩⟩
  | _ => exact ⟨_, rfl⟩

theorem exists_extendAll {extensions : List TypeExtension}
    (shaped : ∀ extension ∈ extensions, extension.body.Shaped) (type : TypeDescriptor) :
    ∃ extended, extensions.foldlM extend type = .ok extended := by
  induction extensions generalizing type with
  | nil => exact ⟨type, rfl⟩
  | cons extension rest ih =>
    obtain ⟨shapedFirst, shapedRest⟩ := List.forall_mem_cons.mp shaped
    obtain ⟨next, isNext⟩ := exists_extend shapedFirst type
    obtain ⟨extended, isExtended⟩ := ih shapedRest next
    exact ⟨extended, by rw [List.foldlM_cons, isNext]; exact isExtended⟩

theorem name_describe {declared : TypeDefinition} (done : describe scalars declared = .ok type) :
    type.name = declared.name := by
  obtain ⟨description?, name, directives, body⟩ := declared
  cases body with
  | object interfaces fields =>
    obtain ⟨_, _, same⟩ := Outcome.bind_eq_ok_iff.mp done
    cases same
    rfl
  | interface interfaces fields =>
    obtain ⟨_, _, same⟩ := Outcome.bind_eq_ok_iff.mp done
    cases same
    rfl
  | input fields =>
    obtain ⟨_, _, same⟩ := Outcome.bind_eq_ok_iff.mp done
    cases same
    rfl
  | _ =>
    cases done
    rfl

/-! ## Drafts and declarations -/

open Declared

theorem extension?_typeExtension {extension : TypeExtension}
    (notScalar : ∀ name directives, extension = ⟨name, directives, .scalar⟩ → False) :
    (Definition.typeExtension extension).extension? = some extension := by
  unfold Definition.extension?
  split
  · next same =>
    cases same
    exact (notScalar _ _ rfl).elim
  · next same =>
    cases same
    rfl
  · next differs => exact (differs _ rfl).elim

/-- A draft holds what some definitions declare: the types of their names, and apart the extensions
of names that they do not define. -/
structure Holds (scalars : ScalarTypes) (definitions : List Definition)
    (draft : SchemaDraft) : Prop where
  keys : draft.types.keys = names definitions
  types : ∀ name type, draft.types.get? name = some type →
    finished scalars definitions name = .ok type
  pending : ∀ name, name ∉ names definitions →
    (draft.pending.get? name).getD [] = extensions name definitions
  waiting : ∀ name ∈ draft.pending.keys, name ∉ names definitions ∧ extensions name definitions ≠ []
  roots : draft.roots =
    ((definitions.flatMap (·.roots)).map fun root => (root.kind, root.type)).reverse

theorem holds_initial (scalars : ScalarTypes) : Holds scalars [] (initial scalars) := by
  refine ⟨?_, ?_, fun _ _ => rfl, fun _ impossible => absurd impossible List.not_mem_nil, rfl⟩
  · show (Table.ofList _).keys = _
    rw [Table.ofList, Table.keys_insertAll, List.map_map]
    rfl
  · intro name type found
    rcases Table.get?_insertAll_mem _ found with isEntry | impossible
    · obtain ⟨entry, _, same⟩ := List.mem_map.mp isEntry
      cases same
      show Except.ok _ >>= (counted entry.1 []).foldlM extend = _
      unfold counted
      split
      · rfl
      · rfl
    · cases impossible

namespace Holds

variable (holds : Holds scalars definitions draft)
include holds

theorem contains_iff {name : String} : draft.types.contains name ↔ name ∈ names definitions := by
  rw [Table.contains_iff_mem_keys, holds.keys]

/-- What waits for a name that may be defined is what a definition of the name starts with. -/
theorem pending_eq {name : String} (allowed : name ∈ names definitions → isBuiltinScalar name) :
    (draft.pending.get? name).getD [] =
      if isBuiltinScalar name then [] else extensions name definitions := by
  by_cases builtin : isBuiltinScalar name = true
  · have absent : name ∉ draft.pending.keys := fun isWaiting =>
      (holds.waiting name isWaiting).1 (mem_names_of_builtin builtin)
    rw [Table.get?_eq_none_of_not_mem absent, if_pos builtin]
    rfl
  · rw [holds.pending name fun known => builtin (allowed known), if_neg builtin]

theorem exists_register {declared : TypeDefinition}
    (shaped : ∀ known ∈ definitions, known.Shaped)
    (described : describe scalars declared = .ok type)
    (allowed : declared.name ∈ names definitions → isBuiltinScalar declared.name) :
    ∃ after, draft.register type = .ok after := by
  have sameName := name_describe described
  have isNew : ¬(draft.types.contains type.name && !isBuiltinScalar type.name) = true := by
    rw [sameName, Bool.and_eq_true, Bool.not_eq_true', holds.contains_iff, not_and,
      Bool.not_eq_false]
    exact allowed
  have shapedWaiting : ∀ extension ∈ (draft.pending.get? type.name).getD [],
      extension.body.Shaped := by
    intro extension isWaiting
    rw [sameName, holds.pending_eq allowed] at isWaiting
    split at isWaiting
    · cases isWaiting
    · obtain ⟨definition, member, isExtension⟩ :=
        List.mem_filterMap.mp (List.mem_filter.mp isWaiting).1
      exact (shaped definition member).2 extension isExtension
  obtain ⟨extended, isExtended⟩ := exists_extendAll shapedWaiting type
  unfold SchemaDraft.register
  rw [if_neg isNew]
  exact ⟨_, Outcome.bind_eq_ok_iff.mpr ⟨extended, isExtended, rfl⟩⟩

theorem register {declared : TypeDefinition} (described : describe scalars declared = .ok type)
    (done : draft.register type = .ok after) :
    Holds scalars (definitions ++ [.type declared]) after := by
  have sameName := name_describe described
  unfold SchemaDraft.register at done
  split at done
  · cases done
  next allowed =>
    rw [sameName, Bool.and_eq_true, Bool.not_eq_true', holds.contains_iff, not_and,
      Bool.not_eq_false] at allowed
    obtain ⟨extended, isExtended, same⟩ := Outcome.bind_eq_ok_iff.mp done
    cases same
    rw [sameName, holds.pending_eq allowed] at isExtended
    refine ⟨?_, ?_, ?_, ?_, ?_⟩
    · show (draft.types.insert type.name extended).keys = _
      rw [Table.keys_insert, holds.keys, sameName, names_snoc_type]
      by_cases builtin : isBuiltinScalar declared.name = true
      · rw [if_pos (mem_names_of_builtin builtin), if_pos builtin, List.append_nil]
      · rw [if_neg fun known => builtin (allowed known), if_neg builtin]
    · intro name found isFound
      change (draft.types.insert type.name extended).get? name = some found at isFound
      rw [Table.get?_insert, sameName] at isFound
      rw [finished_snoc_type]
      split at isFound
      · next isName =>
        cases isFound
        rw [if_pos isName.symm, described, isName]
        exact isExtended
      · next other =>
        rw [if_neg fun same => other same.symm]
        exact holds.types name found isFound
    · intro name unknown
      rw [mem_names_snoc_type, not_or] at unknown
      show ((draft.pending.erase type.name).get? name).getD [] = _
      rw [Table.get?_erase, sameName, if_neg unknown.2, holds.pending name unknown.1,
        extensions_append]
      exact (List.append_nil _).symm
    · intro name isWaiting
      change name ∈ (draft.pending.erase type.name).keys at isWaiting
      obtain ⟨other, isOld⟩ := (Table.mem_keys_erase _ _ _).mp isWaiting
      rw [sameName] at other
      obtain ⟨unknown, some_⟩ := holds.waiting name isOld
      rw [mem_names_snoc_type, not_or]
      exact ⟨⟨unknown, other⟩, extensions_append_ne_nil some_ _⟩
    · show draft.roots = _
      rw [holds.roots, List.flatMap_append]
      simp [Definition.roots]

section Other

variable (other : definition.type? = none)
include other

theorem waiting_snoc_other {name : String} (isWaiting : name ∈ draft.pending.keys) :
    name ∉ names (definitions ++ [definition]) ∧
      extensions name (definitions ++ [definition]) ≠ [] := by
  obtain ⟨unknown, some_⟩ := holds.waiting name isWaiting
  exact ⟨names_snoc_other definitions other ▸ unknown, extensions_append_ne_nil some_ _⟩

theorem extendKnown {extension : TypeExtension} {extended : TypeDescriptor}
    (isExtension : definition.extension? = some extension) (noRoots : definition.roots = [])
    (known : draft.types.get? extension.name = some type)
    (isExtended : extend type extension = .ok extended) :
    Holds scalars (definitions ++ [definition])
      { draft with types := draft.types.insert extension.name extended } := by
  have namesEq := names_snoc_other definitions other
  have isName : extension.name ∈ names definitions :=
    holds.keys ▸ (Table.mem_keys_iff _ _).mpr ⟨type, known⟩
  refine ⟨?_, ?_, ?_, fun name isWaiting => holds.waiting_snoc_other other isWaiting, ?_⟩
  · rw [Table.keys_insert, holds.keys, if_pos isName, namesEq]
  · intro name found isFound
    rw [Table.get?_insert] at isFound
    rw [finished_snoc_other scalars definitions other, extensions_of_extension? isExtension]
    split at isFound
    · next isHere =>
      cases isFound
      rw [if_pos isHere.symm, isHere, holds.types _ type known]
      show extend type extension >>= pure = _
      rw [bind_pure, isExtended]
    · next differs =>
      rw [if_neg fun same => differs same.symm, holds.types name found isFound]
      rfl
  · intro name unknown
    rw [namesEq] at unknown
    have differs : extension.name ≠ name := fun same => unknown (same ▸ isName)
    rw [holds.pending name unknown, extensions_append, extensions_of_extension? isExtension,
      if_neg differs, List.append_nil]
  · rw [holds.roots, List.flatMap_append]
    simp [noRoots]

theorem putAside {extension : TypeExtension} (isExtension : definition.extension? = some extension)
    (noRoots : definition.roots = []) (absent : draft.types.get? extension.name = none) :
    Holds scalars (definitions ++ [definition]) { draft with
      pending := draft.pending.insert extension.name
        ((draft.pending.get? extension.name).getD [] ++ [extension]) } := by
  have namesEq := names_snoc_other definitions other
  have isNew : extension.name ∉ names definitions := by
    rw [← holds.keys, Table.mem_keys_iff, absent]
    simp
  refine ⟨namesEq.symm ▸ holds.keys, ?_, ?_, ?_, ?_⟩
  · intro name found isFound
    have known : name ∈ names definitions :=
      holds.keys ▸ (Table.mem_keys_iff _ _).mpr ⟨found, isFound⟩
    have differs : extension.name ≠ name := fun same => isNew (same ▸ known)
    rw [finished_snoc_other scalars definitions other, extensions_of_extension? isExtension,
      if_neg differs, holds.types name found isFound]
    rfl
  -- A name that is not defined yet has no type that could be extended, so only what waits changes.
  · intro name unknown
    rw [namesEq] at unknown
    rw [Table.get?_insert, extensions_append, extensions_of_extension? isExtension]
    by_cases isHere : name = extension.name
    · rw [if_pos isHere, if_pos isHere.symm, isHere, ← holds.pending _ isNew]
      rfl
    · rw [if_neg isHere, if_neg fun same => isHere same.symm, holds.pending name unknown,
        List.append_nil]
  · intro name isWaiting
    rw [Table.mem_keys_insert] at isWaiting
    rcases isWaiting with isOld | rfl
    · exact holds.waiting_snoc_other other isOld
    · rw [namesEq, extensions_append, extensions_of_extension? isExtension, if_pos rfl]
      exact ⟨isNew, by simp⟩
  · rw [holds.roots, List.flatMap_append]
    simp [noRoots]

theorem addExtension {extension : TypeExtension}
    (isExtension : definition.extension? = some extension) (noRoots : definition.roots = [])
    (done : draft.addExtension extension = .ok after) :
    Holds scalars (definitions ++ [definition]) after := by
  unfold SchemaDraft.addExtension at done
  split at done
  · next type known =>
    obtain ⟨extended, isExtended, same⟩ := Outcome.bind_eq_ok_iff.mp done
    cases same
    exact holds.extendKnown other isExtension noRoots known isExtended
  · next absent =>
    cases done
    exact holds.putAside other isExtension noRoots absent

theorem addRoots (nothing : definition.extension? = none) :
    Holds scalars (definitions ++ [definition])
      { draft with roots :=
          (definition.roots.map fun root => (root.kind, root.type)).reverse ++ draft.roots } := by
  have namesEq := names_snoc_other definitions other
  have unextended := extensions_of_none nothing
  refine ⟨namesEq.symm ▸ holds.keys, ?_, ?_,
    fun name isWaiting => holds.waiting_snoc_other other isWaiting, ?_⟩
  · intro name type found
    rw [finished_snoc_other scalars definitions other, unextended, holds.types name type found]
    rfl
  · intro name unknown
    rw [namesEq] at unknown
    rw [extensions_append, unextended, List.append_nil]
    exact holds.pending name unknown
  · rw [holds.roots, List.flatMap_append, List.map_append, List.reverse_append]
    simp

end Other

theorem add (done : draft.add scalars definition = .ok after) :
    Holds scalars (definitions ++ [definition]) after := by
  unfold SchemaDraft.add at done
  split at done
  · obtain ⟨type, described, registered⟩ := Outcome.bind_eq_ok_iff.mp done
    exact holds.register described registered
  · cases done
    exact holds.addRoots rfl rfl
  · next extension notScalar =>
    exact holds.addExtension rfl (extension?_typeExtension notScalar) rfl done
  · cases done
    exact holds.addRoots rfl rfl
  · cases done
    exact holds.addRoots rfl rfl
  all_goals
    cases done
    exact holds.addRoots rfl rfl

end Holds

/-! ## Whole schemas -/

theorem holds_of_foldlM (done : definitions.foldlM (add scalars) (initial scalars) = .ok draft) :
    Holds scalars definitions draft := by
  -- From the end of the list: what is declared is told by one definition more.
  induction definitions using List.reverseRecOn generalizing draft with
  | nil =>
    cases done
    exact holds_initial scalars
  | append_singleton definitions definition ih =>
    rw [List.foldlM_append] at done
    obtain ⟨before, drafted, last⟩ := Outcome.bind_eq_ok_iff.mp done
    obtain ⟨after, added, same⟩ := Outcome.bind_eq_ok_iff.mp last
    cases same
    exact (ih drafted).add added

theorem holds_ofDocument {document : Document} (done : ofDocument scalars document = .ok draft) :
    Holds scalars document.definitions draft := holds_of_foldlM done

/-- One more definition is added to a draft, unless it defines a name again. -/
theorem Holds.exists_add (holds : Holds scalars definitions draft)
    (shaped : ∀ known ∈ definitions, known.Shaped) (shapedHere : definition.Shaped)
    (distinct : (newNames (definitions ++ [definition])).Nodup) :
    ∃ after, draft.add scalars definition = .ok after := by
  unfold SchemaDraft.add
  split
  · next declared =>
    obtain ⟨type, described⟩ := exists_describe (shapedHere.1 declared rfl)
    have allowed : declared.name ∈ names definitions → isBuiltinScalar declared.name := by
      intro known
      by_contra ordinary
      rw [newNames_snoc_type, if_neg ordinary, List.nodup_append] at distinct
      rcases List.mem_append.mp known with builtin | new
      · exact ordinary (isBuiltinScalar_iff.mpr builtin)
      · exact distinct.2.2 _ new _ (List.mem_singleton_self _) rfl
    obtain ⟨after, registered⟩ := holds.exists_register shaped described allowed
    exact ⟨after, Outcome.bind_eq_ok_iff.mpr ⟨type, described, registered⟩⟩
  · exact ⟨_, rfl⟩
  · next extension notScalar =>
    unfold SchemaDraft.addExtension
    split
    · next type _ =>
      obtain ⟨extended, isExtended⟩ := exists_extend (shapedHere.2 extension
        (extension?_typeExtension notScalar)) type
      exact ⟨_, Outcome.bind_eq_ok_iff.mpr ⟨extended, isExtended, rfl⟩⟩
    · exact ⟨_, rfl⟩
  all_goals exact ⟨_, rfl⟩

theorem exists_foldlM (shaped : ∀ definition ∈ definitions, definition.Shaped)
    (distinct : (newNames definitions).Nodup) :
    ∃ draft, definitions.foldlM (add scalars) (initial scalars) = .ok draft := by
  induction definitions using List.reverseRecOn with
  | nil => exact ⟨_, rfl⟩
  | append_singleton definitions definition ih =>
    obtain ⟨shapedBefore, shapedLast⟩ := List.forall_mem_append.mp shaped
    have fewer : (newNames definitions).Sublist (newNames (definitions ++ [definition])) :=
      (((List.sublist_append_left definitions _).filterMap _).map _).filter _
    obtain ⟨before, drafted⟩ := ih shapedBefore (distinct.sublist fewer)
    obtain ⟨after, added⟩ := (holds_of_foldlM drafted).exists_add shapedBefore
      (shapedLast definition List.mem_cons_self) distinct
    refine ⟨after, ?_⟩
    rw [List.foldlM_append, drafted]
    exact Outcome.bind_eq_ok_iff.mpr ⟨before, rfl, Outcome.bind_eq_ok_iff.mpr ⟨after, added, rfl⟩⟩

/-- There is a draft of a schema exactly where no name is defined twice. -/
theorem exists_ofDocument_iff {document : Document}
    (shaped : ∀ definition ∈ document.definitions, definition.Shaped) :
    (∃ draft, ofDocument scalars document = .ok draft) ↔ (newNames document.definitions).Nodup := by
  constructor
  · rintro ⟨draft, drafted⟩
    have distinct := draft.types.keys_nodup
    rw [(holds_ofDocument drafted).keys] at distinct
    exact distinct.of_append_right
  · exact exists_foldlM shaped

end SchemaDraft

end ChainedSdk
