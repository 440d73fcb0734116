import ChainedSdk.Proofs.SchemaClosure
/-!
# Schemas in another order

Extensions may stand anywhere. What a schema declares depends on the order of its types, on the
order of the blocks that name root types and, for every type, on the order of what extends it, and
on nothing else, as long as no built-in scalar is extended. So two schemas that agree in these have
the same context, or neither has one.
-/

namespace ChainedSdk

def Definition.block? : Definition → Option SchemaBlock
  | .schema block | .schemaExtension block => some block
  | _ => none

namespace Declared

/-- The schema definitions and schema extensions. -/
def blocks (definitions : List Definition) : List SchemaBlock := definitions.filterMap (·.block?)

/-- Definitions in another order. The types keep their order among each other, and so do the schema
blocks and the extensions of each single type. -/
structure Rearranges (first second : List Definition) : Prop where
  perm : first.Perm second
  types : types second = types first
  blocks : blocks second = blocks first
  extensions : ∀ name, extensions name second = extensions name first

/-- Nothing extends a built-in scalar. -/
def SparesBuiltins (definitions : List Definition) : Prop :=
  ∀ name, isBuiltinScalar name → extensions name definitions = []

theorem flatMap_roots (definitions : List Definition) :
    definitions.flatMap (·.roots) = (blocks definitions).flatMap (·.roots) := by
  induction definitions with
  | nil => rfl
  | cons definition rest ih =>
    rw [List.flatMap_cons, ih]
    cases definition with
    | schema block => rfl
    | schemaExtension block => rfl
    | _ => rfl

/-- Without extensions of built-in scalars the place of a definition does not matter to what is
folded into its type. -/
theorem SparesBuiltins.counted_eq {definitions : List Definition}
    (spared : SparesBuiltins definitions) (name : String) :
    counted name definitions = extensions name definitions := by
  unfold counted
  split
  · next builtin =>
    have later : (since name definitions).Sublist definitions := by
      have ending := (List.takeWhile_prefix (l := definitions.reverse)
        fun definition => !definition.defines name).sublist.reverse
      rwa [List.reverse_reverse] at ending
    have fewer := (later.filterMap (·.extension?)).filter fun extension => extension.name = name
    rw [spared name builtin]
    exact List.sublist_nil.mp (spared name builtin ▸ fewer)
  · rfl

namespace Rearranges

variable {first second : List Definition} (moved : Rearranges first second)
include moved

theorem symm : Rearranges second first :=
  ⟨moved.perm.symm, moved.types.symm, moved.blocks.symm, fun name => (moved.extensions name).symm⟩

theorem spares (spared : SparesBuiltins first) : SparesBuiltins second :=
  fun name builtin => (moved.extensions name).trans (spared name builtin)

theorem newNames_eq : newNames second = newNames first := by
  rw [newNames, moved.types, newNames]

theorem names_eq : names second = names first := by rw [names, moved.newNames_eq, names]

theorem root?_eq (kind : OperationKind) : root? second kind = root? first kind := by
  rw [root?, flatMap_roots, moved.blocks, ← flatMap_roots, root?]

theorem base_eq (scalars : ScalarTypes) (name : String) :
    base scalars second name = base scalars first name := by
  rw [base, moved.types, base]

theorem finished_eq (spared : SparesBuiltins first) (scalars : ScalarTypes) (name : String) :
    finished scalars second name = finished scalars first name := by
  rw [finished, moved.base_eq, (moved.spares spared).counted_eq, moved.extensions,
    ← spared.counted_eq, finished]

end Rearranges

end Declared

open Declared

theorem Document.Closed.rearranged {first second : Document} {scalars : ScalarTypes}
    {documents : List DocumentFile} (closed : first.Closed scalars documents)
    (moved : Rearranges first.definitions second.definitions)
    (spared : SparesBuiltins first.definitions) : second.Closed scalars documents where
  distinct := moved.newNames_eq ▸ closed.distinct
  based definition member extension isExtension :=
    moved.names_eq ▸ closed.based definition (moved.perm.mem_iff.mpr member) extension isExtension
  rooted kind name named := by
    rw [moved.root?_eq] at named
    exact moved.names_eq ▸ closed.rooted kind name named
  query := by
    rw [moved.root?_eq, moved.names_eq]
    exact closed.query
  referring name known := by
    rw [moved.names_eq] at known ⊢
    rw [moved.finished_eq spared]
    exact closed.referring name known
  fragments := closed.fragments

/-! ## Schemas with a context are well shaped -/

namespace SchemaDraft

variable {scalars : ScalarTypes} {draft after : SchemaDraft} {type extended : TypeDescriptor}
  {definitions : List Definition} {definition : Definition}

/-- Fields that can be described have types that come down to a name and two flags. -/
theorem shaped_of_mapM {α : Type} {name : α → String} {reference : α → TypeRef}
    {description? : α → Option String} {fields : List α} {described : List FieldDescriptor}
    (done : fields.mapM (fun field =>
      describeField (name field) (reference field) (description? field)) = .ok described) :
    ∀ type ∈ fields.map reference, type.unwrap? ≠ none := by
  refine List.forall_mem_map.mpr fun field member missing => ?_
  obtain ⟨_, _, isField⟩ :=
    Outcome.exists_of_forall₂_left (Outcome.mapM_eq_ok_iff.mp done) member
  rw [describeField, shape, missing] at isField
  cases isField

theorem shaped_of_describe {declared : TypeDefinition}
    (done : describe scalars declared = .ok type) : declared.body.Shaped := by
  obtain ⟨description?, name, directives, body⟩ := declared
  cases body with
  | object _ _ | interface _ _ | input _ =>
    obtain ⟨_, described, _⟩ := Outcome.bind_eq_ok_iff.mp done
    exact shaped_of_mapM described
  | _ => exact fun _ impossible => absurd impossible List.not_mem_nil

theorem shaped_of_extend {extension : TypeExtension}
    (done : extend type extension = .ok extended) : extension.body.Shaped := by
  obtain ⟨name, directives, body⟩ := extension
  cases body with
  | object _ _ | interface _ _ | input _ =>
    obtain ⟨_, described, _⟩ := Outcome.bind_eq_ok_iff.mp done
    exact shaped_of_mapM described
  | _ => exact fun _ impossible => absurd impossible List.not_mem_nil

theorem exists_describe_of_add {declared : TypeDefinition}
    (done : draft.add scalars (.type declared) = .ok after) :
    ∃ type, describe scalars declared = .ok type := by
  obtain ⟨type, described, _⟩ := Outcome.bind_eq_ok_iff.mp done
  exact ⟨type, described⟩

end SchemaDraft

/-- What a context has been built from is well shaped: every type was described, and every extension
was folded into the type that it names. -/
theorem Context.shaped_of_ofDocument {schema : Document} {documents : List DocumentFile}
    {config : Config} {context : Context} (spared : SparesBuiltins schema.definitions)
    (built : ofDocument schema documents config = .ok context) :
    ∀ definition ∈ schema.definitions, definition.Shaped := by
  obtain ⟨draft, drafted, based, _⟩ := ofDocument_eq_ok_iff.mp built
  have holds := SchemaDraft.holds_ofDocument drafted
  refine fun definition member => ⟨fun declared isType => ?_, fun extension isExtension => ?_⟩
  · obtain ⟨before, after, stepped⟩ := Outcome.exists_step_of_foldlM drafted member
    cases definition <;> cases isType
    obtain ⟨type, described⟩ := SchemaDraft.exists_describe_of_add stepped
    exact SchemaDraft.shaped_of_describe described
  · have known := holds.pending_eq_nil_iff.mp (SchemaDraft.checkPending_eq_ok_iff.mp based)
      definition member extension isExtension
    obtain ⟨type, found⟩ := (Table.mem_keys_iff _ _).mp (holds.keys ▸ known)
    obtain ⟨_, _, folded⟩ := Outcome.bind_eq_ok_iff.mp (holds.types extension.name type found)
    rw [spared.counted_eq] at folded
    have counts : extension ∈ extensions extension.name schema.definitions :=
      List.mem_filter.mpr
        ⟨List.mem_filterMap.mpr ⟨definition, member, isExtension⟩, decide_eq_true rfl⟩
    obtain ⟨_, _, extends_⟩ := Outcome.exists_step_of_foldlM folded counts
    exact SchemaDraft.shaped_of_extend extends_

namespace Context

variable {first second : Document} {documents : List DocumentFile} {config : Config}
  {context : Context}

theorem ofDocument_rearranged (moved : Rearranges first.definitions second.definitions)
    (spared : SparesBuiltins first.definitions)
    (built : ofDocument first documents config = .ok context) :
    ofDocument second documents config = .ok context := by
  have shaped := shaped_of_ofDocument spared built
  have closed := ((exists_ofDocument_iff shaped).mp ⟨context, built⟩).rearranged moved spared
  obtain ⟨other, rebuilt⟩ := (exists_ofDocument_iff fun definition member =>
    shaped definition (moved.perm.mem_iff.mpr member)).mpr closed
  suffices same : other = context from same ▸ rebuilt
  obtain ⟨draft, drafted, _, rooted, _, collected, sameTypes, sameConfig⟩ :=
    ofDocument_eq_ok_iff.mp built
  obtain ⟨otherDraft, otherDrafted, _, otherRooted, _, otherCollected, otherTypes, otherConfig⟩ :=
    ofDocument_eq_ok_iff.mp rebuilt
  have holds := SchemaDraft.holds_ofDocument drafted
  have otherHolds := SchemaDraft.holds_ofDocument otherDrafted
  have types : otherDraft.types = draft.types := by
    refine Table.ext_get? ?_ fun name => ?_
    · rw [otherHolds.keys, holds.keys, moved.names_eq]
    · ext type
      rw [otherHolds.get?_eq_some_iff, holds.get?_eq_some_iff, moved.names_eq,
        moved.finished_eq spared]
  have roots : other.rootTypes = context.rootTypes := by
    rw [(otherHolds.rootTypes_eq_ok_iff.mp otherRooted).2.2,
      (holds.rootTypes_eq_ok_iff.mp rooted).2.2]
    simp only [otherHolds.root?_eq, holds.root?_eq, moved.root?_eq, moved.names_eq]
  have fragments : other.fragments = context.fragments :=
    Except.ok.inj (otherCollected.symm.trans collected)
  have sameParts : other.types = context.types ∧ other.config = context.config :=
    ⟨(otherTypes.trans types).trans sameTypes.symm, otherConfig.trans sameConfig.symm⟩
  cases other
  cases context
  exact (mk.injEq ..).mpr ⟨sameParts.1, fragments, roots, sameParts.2⟩

/-- A schema whose definitions stand in another order has the same context: the same types in the
same order, with all that extensions add in the same order, and the same root types. If one order
has no context, the other one has none. -/
theorem build_rearranged (moved : Rearranges first.definitions second.definitions)
    (spared : SparesBuiltins first.definitions) (documents : List DocumentFile) (config : Config)
    (context : Context) : (build (.parsed first) documents config).outcome = .ok context ↔
      (build (.parsed second) documents config).outcome = .ok context := by
  rw [outcome_build, outcome_build]
  exact ⟨ofDocument_rearranged moved spared,
    ofDocument_rearranged moved.symm (moved.spares spared)⟩

private def coinFields (fields : List (String × String)) : TypeBody :=
  .object [] (fields.map fun field => ⟨none, field.1, [], .named field.2, []⟩)

private def coinTypes : List Definition :=
  [.type ⟨none, "Query", [], coinFields [("coin", "Coin")]⟩,
    .type ⟨none, "Coin", [], coinFields [("head", "ID")]⟩]

private def earlyCoin : Definition :=
  .typeExtension ⟨"Coin", [], coinFields [("year", "Int")]⟩

private def lateCoin : Definition :=
  .typeExtension ⟨"Coin", [], coinFields [("year", "String"), ("tail", "ID")]⟩

/-- A type with an extension on either side of its definition, and with both behind it. The year is
the one of the extension that comes first. -/
theorem build_rearranged_coin : ∃ context,
    Rearranges (earlyCoin :: coinTypes ++ [lateCoin]) (coinTypes ++ [earlyCoin, lateCoin]) ∧
    SparesBuiltins (earlyCoin :: coinTypes ++ [lateCoin]) ∧
    (build (.parsed ⟨earlyCoin :: coinTypes ++ [lateCoin]⟩) [] {}).outcome = .ok context ∧
    (build (.parsed ⟨coinTypes ++ [earlyCoin, lateCoin]⟩) [] {}).outcome = .ok context ∧
    (context.type? "Coin").map (fun type => type.fields.map fun field =>
      (field.name, field.typeName)) = some [("head", "ID"), ("year", "Int"), ("tail", "ID")] := by
  have moved :
      Rearranges (earlyCoin :: coinTypes ++ [lateCoin]) (coinTypes ++ [earlyCoin, lateCoin]) :=
    ⟨List.perm_middle.symm, rfl, rfl, fun _ => rfl⟩
  have spared : SparesBuiltins (earlyCoin :: coinTypes ++ [lateCoin]) := by
    intro name builtin
    have other : "Coin" ≠ name := by
      rintro rfl
      exact absurd builtin (by decide)
    show [_, _].filter (fun extension : TypeExtension => extension.name = name) = []
    simp [other]
  have whole : (build (.parsed ⟨earlyCoin :: coinTypes ++ [lateCoin]⟩) [] {}).outcome.map
      (fun context => (context.type? "Coin").map fun type => type.fields.map fun field =>
        (field.name, field.typeName)) =
      .ok (some [("head", "ID"), ("year", "Int"), ("tail", "ID")]) := by
    cbv
  obtain ⟨context, built, shown⟩ := Outcome.map_eq_ok_iff.mp whole
  exact ⟨context, moved, spared, built, (build_rearranged moved spared [] {} context).mp built,
    shown⟩

end Context

end ChainedSdk
