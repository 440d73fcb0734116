import ChainedSdk.Proofs.Generation
import ChainedSdk.Proofs.Listings
import ChainedSdk.Proofs.Regrowth
import Mathlib
/-!
# Layouts of documents

How definitions are laid out in documents is of no matter: of the operations only the sequence
counts and of the fragments not even that. Stage after stage two layouts succeed together, with the
same models under every name and the same forest, but for where its operations were read.
-/

namespace ChainedSdk

variable {config : Config} {files others : List DocumentFile} {context other : Context}
  {models moved : List Model} {forest : Forest}

/-! ## Contexts -/

def fragmentsOf (documents : List DocumentFile) : List FragmentDefinition :=
  documents.flatMap fun file => file.document.fragments

theorem addFragment_eq_ok_iff {fragments table : Table FragmentDefinition}
    {fragment : FragmentDefinition} : addFragment fragments fragment = .ok table ↔
      fragment.name ∉ fragments.keys ∧ table = fragments.insert fragment.name fragment := by
  unfold addFragment
  split
  · next known =>
    have taken := (fragments.contains_iff_mem_keys fragment.name).mp known
    constructor
    · intro impossible
      cases impossible
    · exact fun both => absurd taken both.1
  · next fresh =>
    have free : fragment.name ∉ fragments.keys := fun taken =>
      fresh ((fragments.contains_iff_mem_keys fragment.name).mpr taken)
    constructor
    · intro same
      cases same
      exact ⟨free, rfl⟩
    · rintro ⟨_, rfl⟩
      rfl

private theorem foldlM_addFragment_eq_ok_iff {fragments : List FragmentDefinition}
    {start table : Table FragmentDefinition} : fragments.foldlM addFragment start = .ok table ↔
      (start.keys ++ fragments.map (·.name)).Nodup ∧
        table = start.insertAll (fragments.map fun fragment => (fragment.name, fragment)) := by
  induction fragments generalizing start with
  | nil =>
    rw [List.map_nil, List.append_nil, List.map_nil]
    constructor
    · intro same
      cases same
      exact ⟨table.keys_nodup, rfl⟩
    · rintro ⟨_, rfl⟩
      rfl
  | cons fragment rest ih =>
    rw [List.foldlM_cons, Outcome.bind_eq_ok_iff, List.map_cons, List.map_cons]
    have grown (fresh : fragment.name ∉ start.keys) :
        (start.insert fragment.name fragment).keys = start.keys ++ [fragment.name] := by
      rw [Table.keys_insert, if_neg fresh]
    constructor
    · rintro ⟨next, added, later⟩
      obtain ⟨fresh, rfl⟩ := addFragment_eq_ok_iff.mp added
      obtain ⟨distinct, rfl⟩ := ih.mp later
      rw [grown fresh, List.append_assoc] at distinct
      exact ⟨distinct, rfl⟩
    · rintro ⟨distinct, rfl⟩
      have fresh : fragment.name ∉ start.keys := fun taken =>
        (List.nodup_middle.mp distinct).notMem (List.mem_append_left _ taken)
      refine ⟨_, addFragment_eq_ok_iff.mpr ⟨fresh, rfl⟩, ih.mpr ⟨?_, rfl⟩⟩
      rw [grown fresh, List.append_assoc]
      exact distinct

theorem collectFragments_eq_ok_iff {table : Table FragmentDefinition} :
    collectFragments files = .ok table ↔ ((fragmentsOf files).map (·.name)).Nodup ∧
      table = Table.ofList ((fragmentsOf files).map fun fragment => (fragment.name, fragment)) :=
  foldlM_addFragment_eq_ok_iff

namespace Context

/-- Two contexts find the same under every name. -/
structure AgreesWith (context other : Context) : Prop where
  types : other.types = context.types
  rootTypes : other.rootTypes = context.rootTypes
  config : other.config = context.config
  fragments : ∀ name, other.fragments.get? name = context.fragments.get? name

theorem AgreesWith.symm (agree : context.AgreesWith other) : other.AgreesWith context :=
  ⟨agree.types.symm, agree.rootTypes.symm, agree.config.symm,
    fun name => (agree.fragments name).symm⟩

theorem AgreesWith.eq_withFragments (agree : context.AgreesWith other) :
    other = context.withFragments other.fragments := by
  obtain ⟨sameTypes, sameRoots, sameConfig, _⟩ := agree
  cases other
  subst sameTypes sameRoots sameConfig
  rfl

theorem build_alike (schema : SchemaSource) (config : Config)
    (sameFragments : (fragmentsOf files).Perm (fragmentsOf others)) :
    Outcome.Alike AgreesWith (build schema files config).outcome
      (build schema others config).outcome := by
  cases schema with
  | text content => exact .error _ _
  | parsed document =>
    have collected : Outcome.Alike (fun table other : Table FragmentDefinition =>
        ∀ name, other.get? name = table.get? name)
        (collectFragments files) (collectFragments others) := by
      have sameNames := sameFragments.map fun fragment => fragment.name
      have sameEntries := sameFragments.map fun fragment => (fragment.name, fragment)
      refine .of_ok (fun table made => ?_) (fun table made => ?_)
      · obtain ⟨distinct, rfl⟩ := collectFragments_eq_ok_iff.mp made
        refine ⟨_, collectFragments_eq_ok_iff.mpr ⟨sameNames.nodup_iff.mp distinct, rfl⟩, ?_⟩
        refine Table.get?_ofList_of_perm ?_ sameEntries
        rw [List.map_map]
        exact distinct
      · obtain ⟨distinct, rfl⟩ := collectFragments_eq_ok_iff.mp made
        exact ⟨_, collectFragments_eq_ok_iff.mpr ⟨sameNames.nodup_iff.mpr distinct, rfl⟩⟩
    rw [outcome_build, outcome_build]
    refine .after _ fun draft => .after _ fun _ => .after _ fun rootTypes => .after _ fun _ => ?_
    exact collected.bind fun _ _ same => .ok ⟨rfl, rfl, rfl, same⟩

end Context

/-! ## Models -/

theorem selecting_perm (documents : List DocumentFile) :
    ((Context.definitionsOf documents).filter (·.selects)).Perm
      ((operationsOf documents).map .operation ++ (fragmentsOf documents).map .fragment) := by
  have operations : operationsOf documents =
      Document.operations ⟨Context.definitionsOf documents⟩ := List.filterMap_flatMap.symm
  have fragments : fragmentsOf documents =
      Document.fragments ⟨Context.definitionsOf documents⟩ := List.filterMap_flatMap.symm
  rw [operations, fragments]
  generalize Context.definitionsOf documents = definitions
  induction definitions with
  | nil => exact .nil
  | cons definition rest ih =>
    cases definition with
    | operation operation => exact ih.cons _
    | fragment fragment => exact (ih.cons _).trans List.perm_middle.symm
    | _ => exact ih

/-- The same models, each under its name, in whatever order. -/
structure SameModels (models moved : List Model) : Prop where
  perm : models.Perm moved
  named : ∀ name, (modelTable moved).get? name = (modelTable models).get? name

theorem SameModels.symm (same : SameModels models moved) : SameModels moved models :=
  ⟨same.perm.symm, fun name => (same.named name).symm⟩

theorem SameModels.of_perm (distinct : (models.map (·.name)).Nodup) (same : models.Perm moved) :
    SameModels models moved := by
  refine ⟨same, Table.get?_ofList_of_perm ?_ (same.map _)⟩
  rw [List.map_map]
  exact distinct

/-- From the same operations and fragments the same models are extracted. -/
theorem Context.AgreesWith.exists_models (agree : context.AgreesWith other)
    (sameOperations : (operationsOf files).Perm (operationsOf others))
    (sameFragments : (fragmentsOf files).Perm (fragmentsOf others))
    (extracted : context.models files = .ok models) :
    ∃ moved, other.models others = .ok moved ∧ SameModels models moved := by
  obtain ⟨sites, found, lists, distinct⟩ := models_eq_ok_iff.mp extracted
  have sameDefinitions : ((definitionsOf others).filter (·.selects)).Perm
      ((definitionsOf files).filter (·.selects)) :=
    (selecting_perm others).trans ((((sameOperations.map _).append
      (sameFragments.map _)).symm).trans (selecting_perm files).symm)
  obtain ⟨otherSites, foundOther, sameSites⟩ := List.perm_comp_forall₂ sameDefinitions found
  obtain ⟨moved, movedLists, same⟩ := lists.of_perm sameSites.symm
  refine ⟨moved, ?_, .of_perm distinct same⟩
  rw [agree.eq_withFragments, models_eq_ok_iff]
  exact ⟨otherSites, foundOther, movedLists.withFragments agree.fragments,
    (same.map _).nodup_iff.mp distinct⟩

/-! ## Forests -/

/-- An operation without the document that it was read from. -/
def Operation.unlocated (operation : Operation) : Operation := { operation with location? := none }

theorem Context.AgreesWith.readDefinition_eq (agree : context.AgreesWith other)
    (same : SameModels models moved) (definition : OperationDefinition) :
    other.readDefinition (modelTable moved) definition =
      context.readDefinition (modelTable models) definition := by
  rw [agree.eq_withFragments]
  exact readDefinition_congr fun name _ => same.named _

namespace Forest

/-- The same forest, but for the documents that its operations were read from. -/
def SameUnlocated (forest other : Forest) : Prop :=
  other.mapOperations Operation.unlocated = forest.mapOperations Operation.unlocated

theorem exists_resolve {schema : Document} (agree : context.AgreesWith other)
    (sameOperations : operationsOf files = operationsOf others) (same : SameModels models moved)
    (made : Context.ofDocument schema files config = .ok context)
    (madeOther : Context.ofDocument schema others config = .ok other)
    (extracted : context.models files = .ok models)
    (extractedOther : other.models others = .ok moved)
    (resolved : (resolve context files models).outcome = .ok forest) :
    ∃ otherForest, (resolve other others moved).outcome = .ok otherForest ∧
      SameUnlocated forest otherForest := by
  obtain ⟨operations, collected, grown⟩ := (resolve_eq_ok_iff made extracted).mp resolved
  have distinct := (collectOperations_eq_ok collected).2
  have read : (operationsOf others).mapM (other.readDefinition (modelTable moved)) =
      .ok (operations.map (·.unplaced)) := by
    rw [← readings_of_collectOperations collected, ← sameOperations,
      funext (agree.readDefinition_eq same)]
  have names : (operations.map (·.unplaced)).map (·.name) = operations.map (·.name) := by
    rw [List.map_map]
    rfl
  obtain ⟨kept, collectedOther⟩ := exists_collectOperations read (names ▸ distinct)
  have sameReadings : operations.map (·.unplaced) = kept.map (·.unplaced) :=
    Except.ok.inj (read.symm.trans (readings_of_collectOperations collectedOther))
  have distinctKept := (collectOperations_eq_ok collectedOther).2
  have numbered := numbered_of_collectOperations collected
  have keptNumbered := numbered_of_collectOperations collectedOther
  have whole : operations.filter (fun _ => true) = operations := List.filter_eq_self.mpr
    fun _ _ => rfl
  have retained : Retained (fun _ => true) (Operation.placedIn kept) (modelTable models)
      (modelTable moved) operations kept := by
    refine .of_unplaced (whole.symm ▸ sameReadings) distinct distinctKept numbered keptNumbered ?_
    exact fun operation _ _ => Operation.resultModel_congr fun name _ => same.named name
  have regrown := retained.regrown grown
  rw [List.filter_eq_self.mpr fun _ _ => rfl, ← agree.config] at regrown
  refine ⟨_, (resolve_eq_ok_iff madeOther extractedOther).mpr ⟨kept, collectedOther, regrown⟩, ?_⟩
  have sameIndexes : kept.map (·.index) = operations.map (·.index) := by
    have sameLength : operations.length = kept.length := by
      simpa using congrArg List.length sameReadings
    rw [keptNumbered, numbered, sameLength]
  refine mapOperations_mapOperations fun node isNode => ?_
  refine Operation.eq_of_unplaced (Operation.unplaced_placedIn kept node.operation) rfl ?_
  exact Operation.placedIn_congr sameReadings distinctKept sameIndexes _
    (grown.operation_mem isNode)

/-- Whatever the documents are into which the same operations, in the same order, and the same
fragments, in any order, are laid out: stage after stage the runs succeed together. The same models
are extracted, and the forests differ only in where operations were read. -/
theorem resolve_layout (schema : SchemaSource) (config : Config)
    (sameOperations : operationsOf files = operationsOf others)
    (sameFragments : (fragmentsOf files).Perm (fragmentsOf others)) :
    Outcome.Alike (fun context other =>
        Outcome.Alike (fun models moved => SameModels models moved ∧
            Outcome.Alike SameUnlocated (resolve context files models).outcome
              (resolve other others moved).outcome)
          (Model.extract context files ∅).1.outcome (Model.extract other others ∅).1.outcome)
      (Context.build schema files config).outcome (Context.build schema others config).outcome := by
  cases schema with
  | text content => exact .error _ _
  | parsed document =>
    refine (Context.build_alike _ config sameFragments).imp
      fun context other made madeOther agree => ?_
    rw [Context.outcome_build] at made madeOther
    rw [Model.outcome_extract, Model.outcome_extract]
    have samePerm := List.Perm.of_eq sameOperations
    have extracts : Outcome.Alike SameModels (context.models files) (other.models others) :=
      .of_ok (fun _ extracted => agree.exists_models samePerm sameFragments extracted)
        fun _ extracted =>
          let ⟨models, isModels, _⟩ :=
            agree.symm.exists_models samePerm.symm sameFragments.symm extracted
          ⟨models, isModels⟩
    refine extracts.imp fun models moved extracted extractedOther same => ⟨same, ?_⟩
    refine .of_ok (fun _ resolved => ?_) (fun _ resolved => ?_)
    · exact exists_resolve agree sameOperations same made madeOther extracted extractedOther resolved
    · obtain ⟨forest, isForest, _⟩ := exists_resolve agree.symm sameOperations.symm same.symm
        madeOther made extractedOther extracted resolved
      exact ⟨forest, isForest⟩

private def albumField (name type : String) : FieldDefinition :=
  ⟨none, name, [⟨none, "id", .nonNull (.named "ID"), none, []⟩], .named type, []⟩

private def albumType (name : String) (key : String) : Definition :=
  .type ⟨none, name, [], .object [] [⟨none, key, [], .nonNull (.named "ID"), []⟩]⟩

private def albumSchema : Document where
  definitions := [
    .type ⟨none, "Query", [], .object [] [albumField "album" "Album", albumField "song" "Song"]⟩,
    albumType "Album" "id", albumType "Song" "title"]

private def albumQuery (name part : String) : Definition :=
  .operation ⟨none, .query, some name, [⟨none, "id", .nonNull (.named "ID"), none, []⟩], [],
    [.field ⟨none, name, [⟨"id", .variable "id"⟩], []⟩ (some [.spread part []])]⟩

private def albumPart (name type key : String) : Definition :=
  .fragment ⟨none, name, type, [], [.field ⟨none, key, [], []⟩ none]⟩

private def albumConfig : Config := { requireNamePrefix := false }

private def gatheredFiles : List DocumentFile :=
  [⟨⟨[albumQuery "album" "Key", albumPart "Key" "Album" "id", albumQuery "song" "Title",
    albumPart "Title" "Song" "title"]⟩, some "album.graphql"⟩]

private def scatteredFiles : List DocumentFile :=
  [⟨⟨[albumPart "Title" "Song" "title", albumPart "Key" "Album" "id"]⟩, none⟩,
    ⟨⟨[albumQuery "album" "Key", albumType "Stray" "id"]⟩, none⟩,
    ⟨⟨[albumQuery "song" "Title"]⟩, some "song.graphql"⟩]

/-- One document that is taken apart into three, with the fragments first and in another order. -/
theorem resolve_layout_scattered :
    operationsOf gatheredFiles = operationsOf scatteredFiles ∧
    (fragmentsOf gatheredFiles).Perm (fragmentsOf scatteredFiles) ∧
    ∃ context models forest other moved otherForest,
      (Context.build (.parsed albumSchema) gatheredFiles albumConfig).outcome = .ok context ∧
      (Model.extract context gatheredFiles ∅).1.outcome = .ok models ∧
      (resolve context gatheredFiles models).outcome = .ok forest ∧
      forest.walk.map (·.operation.name) = ["album", "song"] ∧
      (Context.build (.parsed albumSchema) scatteredFiles albumConfig).outcome = .ok other ∧
      (Model.extract other scatteredFiles ∅).1.outcome = .ok moved ∧
      (resolve other scatteredFiles moved).outcome = .ok otherForest ∧
      SameModels models moved ∧ SameUnlocated forest otherForest := by
  have sameOperations : operationsOf gatheredFiles = operationsOf scatteredFiles := rfl
  have sameFragments : (fragmentsOf gatheredFiles).Perm (fragmentsOf scatteredFiles) :=
    .swap _ _ []
  have whole : (do
      let context ← Context.ofDocument albumSchema gatheredFiles albumConfig
      let models ← context.models gatheredFiles
      let forest ← (resolve context gatheredFiles models).outcome
      return forest.walk.map (·.operation.name) : Except Error (List String)) =
        .ok ["album", "song"] := by
    set_option maxRecDepth 4000 in cbv
  obtain ⟨context, built, whole⟩ := Outcome.bind_eq_ok_iff.mp whole
  obtain ⟨models, extracted, whole⟩ := Outcome.bind_eq_ok_iff.mp whole
  obtain ⟨forest, resolved, whole⟩ := Outcome.bind_eq_ok_iff.mp whole
  rw [← Context.outcome_build] at built
  rw [← Model.outcome_extract] at extracted
  obtain ⟨other, builtOther, later⟩ :=
    (resolve_layout (.parsed albumSchema) albumConfig sameOperations sameFragments).exists_ok built
  obtain ⟨moved, extractedOther, same, later⟩ := later.exists_ok extracted
  obtain ⟨otherForest, resolvedOther, sameForest⟩ := later.exists_ok resolved
  exact ⟨sameOperations, sameFragments, context, models, forest, other, moved, otherForest, built,
    extracted, resolved, Except.ok.inj whole, builtOther, extractedOther, resolvedOther, same,
    sameForest⟩

end Forest

end ChainedSdk
