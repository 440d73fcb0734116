import ChainedSdk.Proofs.Layouts
import ChainedSdk.Proofs.SchemaDrafts
/-!
# Schemas with a context

A schema has a context exactly where it is closed: no name is defined twice, and every extension,
root type and reference leads to a type. The table then holds one type for each name, and nothing
that a later stage looks up in it is missing.
-/

namespace ChainedSdk

open Declared

/-- The types that a type refers to are among some names. -/
structure TypeDescriptor.RefersTo (type : TypeDescriptor) (known : List String) : Prop where
  fields : ∀ field ∈ type.fields, field.typeName ∈ known
  members : ∀ name ∈ type.members, name ∈ known
  interfaces : ∀ name ∈ type.interfaces, name ∈ known

/-- What a schema and the documents beside it have to be for a context. -/
structure Document.Closed (schema : Document) (scalars : ScalarTypes)
    (documents : List DocumentFile) : Prop where
  distinct : (newNames schema.definitions).Nodup
  based : ∀ definition ∈ schema.definitions, ∀ extension,
    definition.extension? = some extension → extension.name ∈ names schema.definitions
  rooted : ∀ kind name, Declared.root? schema.definitions kind = some name →
    name ∈ names schema.definitions
  query : (Declared.root? schema.definitions .query).isSome ∨ "Query" ∈ names schema.definitions
  referring : ∀ name ∈ names schema.definitions, ∃ type,
    finished scalars schema.definitions name = .ok type ∧ type.RefersTo (names schema.definitions)
  fragments : ((fragmentsOf documents).map (·.name)).Nodup

/-- The context of a schema: one type for each name, which is found under the name that it carries,
and all types that are referred to. -/
structure Context.Represents (context : Context) (schema : Document)
    (scalars : ScalarTypes) : Prop where
  keys : context.types.keys = names schema.definitions
  distinct : (names schema.definitions).Nodup
  types : ∀ name type, context.types.get? name = some type ↔
    name ∈ names schema.definitions ∧ finished scalars schema.definitions name = .ok type
  ownNames : OwnNames context.types
  referred : ∀ type ∈ context.types.values,
    (∀ field ∈ type.fields, (context.type? field.typeName).isSome) ∧
    (∀ name ∈ type.members, (context.type? name).isSome) ∧
    ∀ name ∈ type.interfaces, (context.type? name).isSome
  roots : ∀ kind, context.rootTypes.lookup kind = (Declared.root? schema.definitions kind).or
    (if kind.conventionalRoot ∈ names schema.definitions then some kind.conventionalRoot else none)
  rooted : ∀ kind name, context.rootTypes.lookup kind = some name → (context.type? name).isSome
  query : (context.rootType? .query).isSome

namespace SchemaDraft

variable {scalars : ScalarTypes} {draft : SchemaDraft} {definitions : List Definition}
  {types : Table TypeDescriptor} {roots : List (OperationKind × String)}

/-! ## The checks of a draft -/

theorem checkPending_eq_ok_iff : draft.checkPending = .ok () ↔ draft.pending.keys = [] := by
  unfold checkPending
  cases draft.pending.keys with
  | nil => simp
  | cons name rest => simp

private theorem find?_unknown_eq_none_iff {α : Type} (types : Table TypeDescriptor)
    (name : α → String) (items : List α) :
    (items.find? fun item => !types.contains (name item)) = none ↔
      ∀ item ∈ items, name item ∈ types.keys := by
  simp only [List.find?_eq_none, Bool.not_eq_true', Bool.not_eq_false,
    Table.contains_iff_mem_keys]

theorem checkType_eq_ok_iff {type : TypeDescriptor} :
    checkType types type = .ok () ↔ type.RefersTo types.keys := by
  have fields := find?_unknown_eq_none_iff types (·.typeName) type.fields
  have names := find?_unknown_eq_none_iff types (fun name => name)
    (type.members ++ type.interfaces)
  unfold checkType
  constructor
  · intro checked
    split at checked
    · cases checked
    · next allFields =>
      split at checked
      · cases checked
      · next allNames =>
        exact ⟨fields.mp allFields,
          fun name isMember => names.mp allNames name (List.mem_append_left _ isMember),
          fun name isInterface => names.mp allNames name (List.mem_append_right _ isInterface)⟩
  · intro refers
    have allNames : ∀ name ∈ type.members ++ type.interfaces, name ∈ types.keys :=
      List.forall_mem_append.mpr ⟨refers.members, refers.interfaces⟩
    rw [fields.mpr refers.fields]
    dsimp only
    rw [names.mpr allNames]

theorem checkReferences_eq_ok_iff : checkReferences types = .ok () ↔
    ∀ type ∈ types.values, type.RefersTo types.keys := by
  rw [checkReferences, Outcome.forM_eq_ok_iff]
  exact forall₂_congr fun _ _ => checkType_eq_ok_iff

theorem rootsOf_eq_ok_iff {kinds : List OperationKind} : draft.rootsOf kinds = .ok roots ↔
    (∀ kind ∈ kinds, ∀ name, draft.root? kind = some name → name ∈ draft.types.keys) ∧
      roots = kinds.filterMap fun kind => (draft.root? kind).map fun name => (kind, name) := by
  induction kinds generalizing roots with
  | nil => simp [rootsOf, eq_comm]
  | cons kind rest ih =>
    rw [rootsOf, List.forall_mem_cons]
    cases named : draft.root? kind with
    | none =>
      rw [List.filterMap_cons_none (by rw [named]; rfl)]
      simp [ih]
    | some name =>
      rw [List.filterMap_cons_some (by rw [named]; rfl)]
      dsimp only
      by_cases known : draft.types.contains name = true
      · have isKey := (draft.types.contains_iff_mem_keys name).mp known
        rw [known]
        show (draft.rootsOf rest >>= fun others => pure ((kind, name) :: others)) = .ok roots ↔ _
        rw [Outcome.bind_eq_ok_iff]
        constructor
        · rintro ⟨others, found, same⟩
          obtain ⟨allKnown, rfl⟩ := ih.mp found
          cases same
          exact ⟨⟨fun _ same => Option.some.inj same ▸ isKey, allKnown⟩, rfl⟩
        · rintro ⟨⟨_, allKnown⟩, rfl⟩
          exact ⟨_, ih.mpr ⟨allKnown, rfl⟩, rfl⟩
      · rw [Bool.eq_false_iff.mpr known]
        constructor
        · intro impossible
          cases impossible
        · rintro ⟨⟨isKey, _⟩, _⟩
          exact absurd ((draft.types.contains_iff_mem_keys name).mpr (isKey name rfl)) known

private theorem mem_all (kind : OperationKind) : kind ∈ OperationKind.all := by
  cases kind <;> decide

private theorem lookup_filterMap (root : OperationKind → Option String) (kinds : List OperationKind)
    (kind : OperationKind) :
    (kinds.filterMap fun other => (root other).map fun name => (other, name)).lookup kind =
      if kind ∈ kinds then root kind else none := by
  induction kinds with
  | nil => rfl
  | cons first rest ih =>
    cases named : root first with
    | none =>
      rw [List.filterMap_cons_none (by rw [named]; rfl), ih]
      by_cases here : kind = first
      · simp [here, named]
      · simp [here]
    | some name =>
      rw [List.filterMap_cons_some (by rw [named]; rfl), List.lookup_cons]
      by_cases here : kind = first
      · simp [here, named]
      · rw [beq_false_of_ne here, ih]
        simp [here]

/-- Of some root types in the order of their naming the last of a kind counts. -/
private theorem lookup_reverse (roots : List RootOperation) (kind : OperationKind) :
    ((roots.map fun root => (root.kind, root.type)).reverse).lookup kind =
      (roots.reverse.find? fun root => root.kind = kind).map (·.type) := by
  rw [← List.map_reverse]
  induction roots.reverse with
  | nil => rfl
  | cons root rest ih =>
    rw [List.map_cons, List.lookup_cons, List.find?_cons]
    by_cases here : root.kind = kind
    · rw [decide_eq_true here, here, beq_self_eq_true]
      rfl
    · rw [decide_eq_false here, beq_false_of_ne fun same => here same.symm]
      exact ih

/-! ## A draft that holds what is declared -/

namespace Holds

variable (holds : Holds scalars definitions draft)
include holds

theorem root?_eq (kind : OperationKind) : draft.root? kind = (Declared.root? definitions kind).or
    (if kind.conventionalRoot ∈ names definitions then some kind.conventionalRoot else none) := by
  have named : draft.roots.lookup kind = Declared.root? definitions kind := by
    rw [holds.roots, lookup_reverse]
    rfl
  unfold SchemaDraft.root?
  rw [named]
  cases Declared.root? definitions kind with
  | some name => rfl
  | none =>
    by_cases known : kind.conventionalRoot ∈ names definitions
    · rw [if_pos (holds.contains_iff.mpr known), if_pos known]
      rfl
    · rw [if_neg fun found => known (holds.contains_iff.mp found), if_neg known]
      rfl

theorem isSome_query_iff : (draft.root? .query).isSome ↔
    (Declared.root? definitions .query).isSome ∨ "Query" ∈ names definitions := by
  rw [holds.root?_eq, Option.isSome_or, Bool.or_eq_true]
  refine or_congr_right ?_
  show (if "Query" ∈ names definitions then some "Query" else none).isSome ↔ _
  split
  · next known => simp [known]
  · next unknown => simp [unknown]

/-- The conventional root is there if it counts, so only a named one may be missing. -/
theorem mem_names_of_root? {kind : OperationKind} {name : String}
    (rooted : ∀ kind name, Declared.root? definitions kind = some name → name ∈ names definitions)
    (found : draft.root? kind = some name) : name ∈ names definitions := by
  rw [holds.root?_eq] at found
  rcases Option.or_eq_some_iff.mp found with named | ⟨_, conventional⟩
  · exact rooted kind name named
  · split at conventional
    · next isName =>
      cases conventional
      exact isName
    · cases conventional

theorem rootTypes_eq_ok_iff {roots : List (OperationKind × String)} :
    draft.rootTypes = .ok roots ↔
      (∀ kind name, Declared.root? definitions kind = some name → name ∈ names definitions) ∧
      ((Declared.root? definitions .query).isSome ∨ "Query" ∈ names definitions) ∧
      roots = OperationKind.all.filterMap fun kind =>
        (draft.root? kind).map fun name => (kind, name) := by
  have known : (∀ kind ∈ OperationKind.all, ∀ name, draft.root? kind = some name →
      name ∈ draft.types.keys) ↔
      ∀ kind name, Declared.root? definitions kind = some name → name ∈ names definitions := by
    rw [holds.keys]
    constructor
    · intro all kind name named
      exact all kind (mem_all kind) name (by rw [holds.root?_eq, named]; rfl)
    · intro all kind _ name found
      exact holds.mem_names_of_root? all found
  have query : ((OperationKind.all.filterMap fun kind =>
      (draft.root? kind).map fun name => (kind, name)).lookup .query).isNone = false ↔
      (Declared.root? definitions .query).isSome ∨ "Query" ∈ names definitions := by
    rw [lookup_filterMap, if_pos (mem_all .query), Option.isNone_eq_false_iff]
    exact holds.isSome_query_iff
  rw [rootTypes, Outcome.bind_eq_ok_iff]
  constructor
  · rintro ⟨found, isFound, onward⟩
    obtain ⟨allKnown, rfl⟩ := rootsOf_eq_ok_iff.mp isFound
    split at onward
    · cases onward
    · next some_ =>
      cases onward
      exact ⟨known.mp allKnown, query.mp (Bool.eq_false_iff.mpr some_), rfl⟩
  · rintro ⟨allKnown, isQuery, rfl⟩
    refine ⟨_, rootsOf_eq_ok_iff.mpr ⟨known.mpr allKnown, rfl⟩, ?_⟩
    rw [query.mpr isQuery]
    rfl

theorem lookup_rootTypes {roots : List (OperationKind × String)}
    (rooted : draft.rootTypes = .ok roots) (kind : OperationKind) :
    roots.lookup kind = draft.root? kind := by
  obtain ⟨_, _, rfl⟩ := holds.rootTypes_eq_ok_iff.mp rooted
  rw [lookup_filterMap, if_pos (mem_all kind)]

theorem pending_eq_nil_iff : draft.pending.keys = [] ↔ ∀ definition ∈ definitions, ∀ extension,
    definition.extension? = some extension → extension.name ∈ names definitions := by
  constructor
  · intro none_ definition member extension isExtension
    by_contra unknown
    have isWaiting : extension ∈ (draft.pending.get? extension.name).getD [] := by
      rw [holds.pending _ unknown]
      exact List.mem_filter.mpr
        ⟨List.mem_filterMap.mpr ⟨definition, member, isExtension⟩, decide_eq_true rfl⟩
    have absent : extension.name ∉ draft.pending.keys := by
      rw [none_]
      exact List.not_mem_nil
    rw [Table.get?_eq_none_of_not_mem absent] at isWaiting
    cases isWaiting
  · intro based
    refine List.eq_nil_iff_forall_not_mem.mpr fun name isWaiting => ?_
    obtain ⟨unknown, some_⟩ := holds.waiting name isWaiting
    obtain ⟨extension, member⟩ := List.exists_mem_of_ne_nil _ some_
    obtain ⟨isOne, isName⟩ := List.mem_filter.mp member
    obtain ⟨definition, isDefinition, isExtension⟩ := List.mem_filterMap.mp isOne
    exact unknown (of_decide_eq_true isName ▸ based definition isDefinition extension isExtension)

theorem get?_eq_some_iff {name : String} {type : TypeDescriptor} :
    draft.types.get? name = some type ↔
      name ∈ names definitions ∧ finished scalars definitions name = .ok type := by
  constructor
  · intro found
    exact ⟨holds.keys ▸ (Table.mem_keys_iff _ _).mpr ⟨type, found⟩, holds.types name type found⟩
  · rintro ⟨known, isType⟩
    obtain ⟨other, found⟩ := (Table.mem_keys_iff _ _).mp (holds.keys ▸ known)
    cases (holds.types name other found).symm.trans isType
    exact found

end Holds

end SchemaDraft

namespace Context

variable {schema : Document} {documents : List DocumentFile} {config : Config} {context : Context}

theorem ofDocument_eq_ok_iff : ofDocument schema documents config = .ok context ↔
    ∃ draft, SchemaDraft.ofDocument (scalarTypes config) schema = .ok draft ∧
      draft.checkPending = .ok () ∧ draft.rootTypes = .ok context.rootTypes ∧
      SchemaDraft.checkReferences draft.types = .ok () ∧
      collectFragments documents = .ok context.fragments ∧ context.types = draft.types ∧
      context.config = config := by
  constructor
  · intro built
    obtain ⟨draft, drafted, built⟩ := Outcome.bind_eq_ok_iff.mp built
    obtain ⟨_, based, built⟩ := Outcome.bind_eq_ok_iff.mp built
    obtain ⟨roots, rooted, built⟩ := Outcome.bind_eq_ok_iff.mp built
    obtain ⟨_, referred, built⟩ := Outcome.bind_eq_ok_iff.mp built
    obtain ⟨fragments, collected, same⟩ := Outcome.bind_eq_ok_iff.mp built
    cases same
    exact ⟨draft, drafted, based, rooted, referred, collected, rfl, rfl⟩
  · rintro ⟨draft, drafted, based, rooted, referred, collected, sameTypes, sameConfig⟩
    obtain ⟨types, fragments, roots, settings⟩ := context
    cases sameTypes
    cases sameConfig
    refine Outcome.bind_eq_ok_iff.mpr ⟨draft, drafted, ?_⟩
    refine Outcome.bind_eq_ok_iff.mpr ⟨(), based, ?_⟩
    refine Outcome.bind_eq_ok_iff.mpr ⟨roots, rooted, ?_⟩
    refine Outcome.bind_eq_ok_iff.mpr ⟨(), referred, ?_⟩
    exact Outcome.bind_eq_ok_iff.mpr ⟨fragments, collected, rfl⟩

theorem exists_ofDocument_iff (shaped : ∀ definition ∈ schema.definitions, definition.Shaped) :
    (∃ context, ofDocument schema documents config = .ok context) ↔
      schema.Closed (scalarTypes config) documents := by
  constructor
  · rintro ⟨context, built⟩
    obtain ⟨draft, drafted, based, rooted, referred, collected, _⟩ :=
      ofDocument_eq_ok_iff.mp built
    have holds := SchemaDraft.holds_ofDocument drafted
    obtain ⟨allRooted, query, _⟩ := holds.rootTypes_eq_ok_iff.mp rooted
    refine ⟨(SchemaDraft.exists_ofDocument_iff shaped).mp ⟨draft, drafted⟩,
      holds.pending_eq_nil_iff.mp (SchemaDraft.checkPending_eq_ok_iff.mp based), allRooted, query,
      fun name known => ?_, (collectFragments_eq_ok_iff.mp collected).1⟩
    obtain ⟨type, found⟩ := (Table.mem_keys_iff _ _).mp (holds.keys ▸ known)
    refine ⟨type, holds.types name type found, ?_⟩
    rw [← holds.keys]
    exact SchemaDraft.checkReferences_eq_ok_iff.mp referred type
      ((Table.mem_values_iff _ _).mpr ⟨name, found⟩)
  · intro closed
    obtain ⟨draft, drafted⟩ :
        ∃ draft, SchemaDraft.ofDocument (scalarTypes config) schema = .ok draft :=
      (SchemaDraft.exists_ofDocument_iff shaped).mpr closed.distinct
    have holds := SchemaDraft.holds_ofDocument drafted
    have based := SchemaDraft.checkPending_eq_ok_iff.mpr (holds.pending_eq_nil_iff.mpr closed.based)
    have rooted := holds.rootTypes_eq_ok_iff.mpr ⟨closed.rooted, closed.query, rfl⟩
    have referred : SchemaDraft.checkReferences draft.types = .ok () := by
      refine SchemaDraft.checkReferences_eq_ok_iff.mpr fun type member => ?_
      obtain ⟨name, found⟩ := (Table.mem_values_iff _ _).mp member
      obtain ⟨known, isType⟩ := holds.get?_eq_some_iff.mp found
      obtain ⟨other, isOther, refers⟩ := closed.referring name known
      cases isOther.symm.trans isType
      exact holds.keys ▸ refers
    have collected := collectFragments_eq_ok_iff.mpr ⟨closed.fragments, rfl⟩
    exact ⟨⟨_, _, _, config⟩, ofDocument_eq_ok_iff.mpr
      ⟨draft, drafted, based, rooted, referred, collected, rfl, rfl⟩⟩

theorem represents_of_ofDocument (built : ofDocument schema documents config = .ok context) :
    context.Represents schema (scalarTypes config) := by
  obtain ⟨draft, drafted, _, rooted, referred, _, sameTypes, _⟩ := ofDocument_eq_ok_iff.mp built
  have holds := SchemaDraft.holds_ofDocument drafted
  obtain ⟨allRooted, query, _⟩ := holds.rootTypes_eq_ok_iff.mp rooted
  have keysEq : context.types.keys = names schema.definitions := sameTypes ▸ holds.keys
  have known {name : String} (isName : name ∈ names schema.definitions) :
      (context.type? name).isSome := by
    rw [← keysEq] at isName
    exact Option.isSome_iff_exists.mpr ((Table.mem_keys_iff _ _).mp isName)
  have isRoot {kind : OperationKind} {name : String}
      (found : context.rootTypes.lookup kind = some name) : (context.type? name).isSome := by
    rw [holds.lookup_rootTypes rooted] at found
    exact known (holds.mem_names_of_root? allRooted found)
  refine ⟨keysEq, keysEq ▸ context.types.keys_nodup, fun name type => ?_,
    ownNames_ofDocument built, fun type member => ?_, fun kind => ?_, fun _ _ => isRoot, ?_⟩
  · rw [sameTypes, holds.get?_eq_some_iff]
  · rw [sameTypes] at member
    have refers := SchemaDraft.checkReferences_eq_ok_iff.mp referred type member
    rw [holds.keys] at refers
    exact ⟨fun field isField => known (refers.fields field isField),
      fun name isMember => known (refers.members name isMember),
      fun name isInterface => known (refers.interfaces name isInterface)⟩
  · rw [holds.lookup_rootTypes rooted, holds.root?_eq]
  · obtain ⟨name, found⟩ := Option.isSome_iff_exists.mp (holds.isSome_query_iff.mpr query)
    have named : context.rootTypes.lookup .query = some name :=
      (holds.lookup_rootTypes rooted .query).trans found
    rw [rootType?, named]
    exact isRoot named

/-- A schema whose fields have types with shapes, as those of every text do, has a context exactly
where it is closed and the fragments beside it have distinct names. The context then holds one type
for each name, the built-in scalars before the names that are defined, and everything that they and
the root types refer to. -/
theorem build_closed (shaped : ∀ definition ∈ schema.definitions, definition.Shaped)
    (documents : List DocumentFile) (config : Config) :
    ((∃ context, (build (.parsed schema) documents config).outcome = .ok context) ↔
      schema.Closed (scalarTypes config) documents) ∧
    ∀ context, (build (.parsed schema) documents config).outcome = .ok context →
      context.Represents schema (scalarTypes config) := by
  rw [outcome_build]
  exact ⟨exists_ofDocument_iff shaped, fun _ => represents_of_ofDocument⟩

private def coinSchema : String :=
  "extend type Coin \x7b year: Int \x7d type Query \x7b coin: Coin \x7d " ++
    "type Coin \x7b head: ID \x7d"

/-- A type that is extended before it is defined. -/
theorem build_closed_coin : ∃ schema context,
    Document.ofText coinSchema = .ok schema ∧
    (build (.parsed schema) [] {}).outcome = .ok context ∧
    names schema.definitions = ["ID", "String", "Int", "Float", "Boolean", "Query", "Coin"] ∧
    schema.Closed (scalarTypes {}) [] ∧ context.Represents schema (scalarTypes {}) := by
  have whole : (do
      let schema ← Document.ofText coinSchema
      let context ← (build (.parsed schema) [] {}).outcome
      return names schema.definitions =
        ["ID", "String", "Int", "Float", "Boolean", "Query", "Coin"] : Except Error Bool) =
      .ok true := by
    set_option maxRecDepth 4000 in cbv
  obtain ⟨schema, parsed, whole⟩ := Outcome.bind_eq_ok_iff.mp whole
  obtain ⟨context, built, whole⟩ := Outcome.bind_eq_ok_iff.mp whole
  have sameNames := of_decide_eq_true (Except.ok.inj whole)
  obtain ⟨closes, represents⟩ :=
    build_closed (fun _ member => (Document.singleMarks_of_mem parsed member).shaped) [] {}
  exact ⟨schema, context, parsed, built, sameNames, closes.mp ⟨context, built⟩,
    represents context built⟩

end Context

end ChainedSdk
