import ChainedSdk.Proofs.Layouts
/-!
# Kinds apart

Operations of one kind do not notice those of another. Without the operations of other kinds the
same context is built, some of the models are extracted, and the trees of the kind that is left are
those that were resolved among all operations, but for how the operations are counted.
-/

namespace ChainedSdk

variable {config : Config} {files : List DocumentFile} {context : Context}
  {models fewer : List Model} {forest : Forest} {kind : OperationKind}

/-! ## Documents of one kind -/

/-- Whether a definition is not an operation of another kind. -/
def Definition.suits (kind : OperationKind) : Definition → Bool
  | .operation definition => definition.kind = kind
  | _ => true

/-- A document without the operations of other kinds. -/
def DocumentFile.restrictTo (kind : OperationKind) (file : DocumentFile) : DocumentFile :=
  { file with document := ⟨file.document.definitions.filter (Definition.suits kind)⟩ }

def restrictTo (kind : OperationKind) (files : List DocumentFile) : List DocumentFile :=
  files.map (DocumentFile.restrictTo kind)

theorem fragmentsOf_restrictTo (kind : OperationKind) (files : List DocumentFile) :
    fragmentsOf (restrictTo kind files) = fragmentsOf files := by
  rw [fragmentsOf, restrictTo, List.flatMap_map]
  refine List.flatMap_congr fun file _ => ?_
  show (file.document.definitions.filter _).filterMap _ = file.document.definitions.filterMap _
  rw [List.filterMap_filter]
  refine List.filterMap_congr fun definition _ => ?_
  cases definition with
  | operation operation => simp
  | _ => rfl

private theorem operations_restrictTo (kind : OperationKind) (file : DocumentFile) :
    (file.restrictTo kind).document.operations =
      file.document.operations.filter fun definition => definition.kind = kind := by
  show (file.document.definitions.filter _).filterMap _ =
    (file.document.definitions.filterMap _).filter _
  rw [List.filterMap_filter, List.filter_filterMap]
  refine List.filterMap_congr fun definition _ => ?_
  cases definition with
  | operation operation => simp [Definition.suits, Option.filter]
  | _ => rfl

theorem entriesOf_restrictTo (kind : OperationKind) (files : List DocumentFile) :
    entriesOf (restrictTo kind files) =
      (entriesOf files).filter fun entry => entry.2.kind = kind := by
  rw [entriesOf, entriesOf, restrictTo, List.flatMap_map, List.filter_flatMap]
  refine List.flatMap_congr fun file _ => ?_
  rw [operations_restrictTo, List.filter_map]
  rfl

theorem definitionsOf_restrictTo (kind : OperationKind) (files : List DocumentFile) :
    Context.definitionsOf (restrictTo kind files) =
      (Context.definitionsOf files).filter (Definition.suits kind) := by
  rw [Context.definitionsOf, Context.definitionsOf, restrictTo, List.flatMap_map,
    List.filter_flatMap]
  rfl

theorem Context.outcome_build_restrictTo (schema : SchemaSource) (config : Config)
    (kind : OperationKind) (files : List DocumentFile) :
    (build schema (restrictTo kind files) config).outcome = (build schema files config).outcome := by
  cases schema with
  | text content => rfl
  | parsed document =>
    have sameFragments : collectFragments (restrictTo kind files) = collectFragments files :=
      congrArg (·.foldlM addFragment ∅) (fragmentsOf_restrictTo kind files)
    rw [outcome_build, outcome_build, ofDocument, ofDocument, sameFragments]

/-! ## Models of one kind -/

theorem Context.models_restrictTo (extracted : context.models files = .ok models)
    (kind : OperationKind) :
    ∃ fewer, context.models (restrictTo kind files) = .ok fewer ∧ fewer.Sublist models := by
  obtain ⟨sites, found, lists, distinct⟩ := models_eq_ok_iff.mp extracted
  have fewerDefinitions : ((definitionsOf (restrictTo kind files)).filter (·.selects)).Sublist
      ((definitionsOf files).filter (·.selects)) := by
    rw [definitionsOf_restrictTo]
    exact List.filter_sublist.filter _
  obtain ⟨fewerSites, foundFewer, sublist⟩ := Outcome.forall₂_of_sublist found fewerDefinitions
  obtain ⟨fewer, fewerLists, within⟩ := lists.of_sublist sublist
  exact ⟨fewer, models_eq_ok_iff.mpr ⟨fewerSites, foundFewer, fewerLists,
    distinct.sublist (within.map _)⟩, within⟩

/-! ## Forests of one kind -/

/-- An operation that is not counted. -/
def Operation.unindexed (operation : Operation) : Operation := { operation with index := 0 }

namespace Forest

/-- The same forest, but for how its operations are counted. -/
def SameUnindexed (forest other : Forest) : Prop :=
  other.mapOperations Operation.unindexed = forest.mapOperations Operation.unindexed

def ofKind (kind : OperationKind) (forest : Forest) : Forest :=
  forest.filter fun entry => entry.1 = kind

end Forest

/-- The models of some documents and those that are left for one kind of operations. -/
structure Narrows (context : Context) (kind : OperationKind) (files : List DocumentFile)
    (models fewer : List Model) : Prop where
  distinct : (models.map (·.name)).Nodup
  within : fewer.Sublist models
  coherent : context.Coherent (modelTable fewer)
  rooted : ∀ definition ∈ operationsOf (restrictTo kind files), ∃ name root,
    definition.name? = some name ∧
      (modelTable fewer).get? (Names.operationModel name definition.kind) = some root

namespace Narrows

variable {operations kept : List Operation}

theorem get?_eq (narrows : Narrows context kind files models fewer) {name : String} {model : Model}
    (found : (modelTable fewer).get? name = some model) :
    (modelTable fewer).get? name = (modelTable models).get? name := by
  obtain ⟨member, isName⟩ := mem_of_get?_modelTable found
  rw [found, (get?_modelTable_iff narrows.distinct).mpr ⟨narrows.within.subset member, isName⟩]

theorem readFrom (collected : (collectOperations context (modelTable models) files).outcome =
      .ok operations) (kind : OperationKind) :
    List.Forall₂ (fun entry operation => operation.ReadFrom context (modelTable models) entry)
      (entriesOf (restrictTo kind files))
      (operations.filter fun operation => operation.kind = kind) := by
  rw [entriesOf_restrictTo]
  refine List.rel_filter (fun entry operation isRead => ?_)
    (readFrom_of_collectOperations collected)
  have sameKind : operation.unplaced.kind = entry.2.kind := kind_of_readDefinition isRead.1
  show decide (entry.2.kind = kind) = true ↔ decide (operation.unplaced.kind = kind) = true
  rw [sameKind]

theorem readings (narrows : Narrows context kind files models fewer)
    (collected : (collectOperations context (modelTable models) files).outcome = .ok operations) :
    (operationsOf (restrictTo kind files)).mapM (context.readDefinition (modelTable fewer)) =
      .ok ((operations.filter fun operation => operation.kind = kind).map (·.unplaced)) := by
  have alike : ∀ definition ∈ operationsOf (restrictTo kind files),
      context.readDefinition (modelTable fewer) definition =
        context.readDefinition (modelTable models) definition := by
    intro definition member
    obtain ⟨name, root, isName, isRoot⟩ := narrows.rooted definition member
    refine readDefinition_congr fun other isOther => ?_
    rw [isName, Option.some.injEq] at isOther
    rw [← isOther]
    exact narrows.get?_eq isRoot
  rw [Outcome.mapM_congr alike, Outcome.mapM_eq_ok_iff, List.forall₂_map_right_iff,
    ← map_snd_entriesOf, List.forall₂_map_left_iff]
  exact (readFrom collected kind).imp fun _ _ isRead => isRead.1

theorem exists_kept (narrows : Narrows context kind files models fewer)
    (collected : (collectOperations context (modelTable models) files).outcome = .ok operations) :
    ∃ kept, (collectOperations context (modelTable fewer) (restrictTo kind files)).outcome =
        .ok kept ∧
      (operations.filter fun operation => operation.kind = kind).map (·.unplaced) =
        kept.map (·.unplaced) := by
  have read := narrows.readings collected
  have distinct := (collectOperations_eq_ok collected).2
  obtain ⟨kept, collectedKept⟩ := exists_collectOperations read (by
    rw [List.map_map]
    exact distinct.sublist (List.filter_sublist.map _))
  exact ⟨kept, collectedKept,
    Except.ok.inj (read.symm.trans (readings_of_collectOperations collectedKept))⟩

theorem retained (narrows : Narrows context kind files models fewer)
    (collected : (collectOperations context (modelTable models) files).outcome = .ok operations)
    (collectedKept : (collectOperations context (modelTable fewer)
      (restrictTo kind files)).outcome = .ok kept)
    (same : (operations.filter fun operation => operation.kind = kind).map (·.unplaced) =
      kept.map (·.unplaced)) :
    Retained (fun other => decide (other = kind)) (Operation.placedIn kept) (modelTable models)
      (modelTable fewer) operations kept := by
  obtain ⟨reads, distinctKept⟩ := collectOperations_eq_ok collectedKept
  refine .of_unplaced same (collectOperations_eq_ok collected).2 distinctKept
    (numbered_of_collectOperations collected) (numbered_of_collectOperations collectedKept) ?_
  intro operation member isKind
  refine Operation.resultModel_congr fun name isModel => ?_
  have isRead : operation.unplaced ∈ kept.map (·.unplaced) := by
    rw [← same]
    exact List.mem_map_of_mem (List.mem_filter.mpr ⟨member, isKind⟩)
  obtain ⟨other, isOther, sameReading⟩ := List.mem_map.mp isRead
  obtain ⟨definition, _, otherReads⟩ := Outcome.exists_of_forall₂ reads isOther
  have sameModel : other.model? = operation.model? := by
    show other.unplaced.model? = operation.unplaced.model?
    rw [sameReading]
  have present := otherReads.modelled narrows.coherent (sameModel.trans isModel)
  obtain ⟨model, found⟩ := (Table.mem_keys_iff _ _).mp present
  exact narrows.get?_eq found

theorem locations
    (collected : (collectOperations context (modelTable models) files).outcome = .ok operations)
    (collectedKept : (collectOperations context (modelTable fewer)
      (restrictTo kind files)).outcome = .ok kept) :
    kept.map (·.location?) =
      (operations.filter fun operation => operation.kind = kind).map (·.location?) := by
  have before : (entriesOf (restrictTo kind files)).map Prod.fst =
      (operations.filter fun operation => operation.kind = kind).map (·.location?) :=
    Outcome.map_eq_of_forall₂ (readFrom collected kind) fun _ _ isRead => isRead.2.symm
  have after : (entriesOf (restrictTo kind files)).map Prod.fst = kept.map (·.location?) :=
    Outcome.map_eq_of_forall₂ (readFrom_of_collectOperations collectedKept)
      fun _ _ isRead => isRead.2.symm
  exact after.symm.trans before

end Narrows

namespace Forest

theorem mem_walk_ofKind {node : Node} (member : node ∈ (forest.ofKind kind).walk) :
    ∃ entry ∈ forest, entry.1 = kind ∧ ∃ root ∈ entry.2, node ∈ root.walk := by
  obtain ⟨entry, isEntry, root, isRoot, inTree⟩ := mem_walk.mp member
  obtain ⟨isOld, isKind⟩ := List.mem_filter.mp isEntry
  exact ⟨entry, isOld, of_decide_eq_true isKind, root, isRoot, inTree⟩

/-- What is resolved for one kind does not change when the operations of the others are left out. -/
theorem exists_resolve_restrictTo {schema : Document}
    (made : Context.ofDocument schema files config = .ok context)
    (madeFewer : Context.ofDocument schema (restrictTo kind files) config = .ok context)
    (extracted : context.models files = .ok models)
    (extractedFewer : context.models (restrictTo kind files) = .ok fewer)
    (narrows : Narrows context kind files models fewer)
    (resolved : (resolve context files models).outcome = .ok forest) :
    ∃ other, (resolve context (restrictTo kind files) fewer).outcome = .ok other ∧
      SameUnindexed (forest.ofKind kind) other := by
  obtain ⟨operations, collected, grown⟩ := (resolve_eq_ok_iff made extracted).mp resolved
  obtain ⟨kept, collectedKept, same⟩ := narrows.exists_kept collected
  have retained := narrows.retained collected collectedKept same
  refine ⟨_, (resolve_eq_ok_iff madeFewer extractedFewer).mpr
    ⟨kept, collectedKept, retained.regrown grown⟩, ?_⟩
  -- A node that is left is of this kind, and so it is placed where it was but for its index.
  refine mapOperations_mapOperations fun node member => ?_
  obtain ⟨entry, isEntry, isKind, root, isRoot, inTree⟩ := mem_walk_ofKind member
  obtain ⟨above, below⟩ := Node.mem_walk_iff_below.mp inTree
  have isKept : node.operation ∈ operations.filter fun operation => operation.kind = kind := by
    have sameKind := grown.kind_eq retained.distinct isEntry isRoot below
    have isOperation := grown.operation_mem (mem_walk_of_below isEntry isRoot below)
    exact List.mem_filter.mpr ⟨isOperation, decide_eq_true (sameKind.trans isKind)⟩
  refine Operation.eq_of_unplaced (Operation.unplaced_placedIn kept node.operation) ?_ rfl
  exact Operation.placedIn_congr same (collectOperations_eq_ok collectedKept).2
    (Narrows.locations collected collectedKept) _ isKept

/-- Kinds do not meet in a resolved forest: whatever stands below a node is of its kind. And without
the operations of all kinds but one every stage succeeds as before, and the forest that is left
holds the trees of this kind, but for how the operations are counted. -/
theorem resolve_kinds_apart {schema : SchemaSource}
    (built : (Context.build schema files config).outcome = .ok context)
    (extracted : (Model.extract context files ∅).1.outcome = .ok models)
    (resolved : (resolve context files models).outcome = .ok forest) :
    (∀ node ∈ forest.walk, ∀ lower ∈ node.walk, lower.operation.kind = node.operation.kind) ∧
    ∀ kind, (Context.build schema (restrictTo kind files) config).outcome = .ok context ∧
      ∃ fewer other,
        (Model.extract context (restrictTo kind files) ∅).1.outcome = .ok fewer ∧
        (resolve context (restrictTo kind files) fewer).outcome = .ok other ∧
        SameUnindexed (forest.ofKind kind) other := by
  cases schema with
  | text content => cases built
  | parsed document =>
    have made := built
    rw [Context.outcome_build] at made
    rw [Model.outcome_extract] at extracted
    constructor
    · obtain ⟨operations, collected, grown⟩ := (resolve_eq_ok_iff made extracted).mp resolved
      have distinct := (collectOperations_eq_ok collected).2
      intro node isNode lower isLower
      obtain ⟨entry, isEntry, root, isRoot, inTree⟩ := mem_walk.mp isNode
      obtain ⟨_, below⟩ := Node.mem_walk_iff_below.mp inTree
      obtain ⟨_, further⟩ := Node.mem_walk_iff_below.mp isLower
      rw [grown.kind_eq distinct isEntry isRoot below]
      exact grown.kind_eq distinct isEntry isRoot (further.trans below)
    · intro kind
      have builtFewer := (Context.outcome_build_restrictTo (.parsed document) config kind
        files).trans built
      have madeFewer := builtFewer
      rw [Context.outcome_build] at madeFewer
      obtain ⟨_, _, _, distinct⟩ := Context.models_eq_ok_iff.mp extracted
      obtain ⟨fewer, extractedFewer, within⟩ := Context.models_restrictTo extracted kind
      obtain ⟨coherent, _, rooted⟩ := Context.spec_of_models madeFewer extractedFewer
      obtain ⟨other, resolvedFewer, same⟩ := exists_resolve_restrictTo made madeFewer extracted
        extractedFewer ⟨distinct, within, coherent, rooted⟩ resolved
      refine ⟨builtFewer, fewer, other, ?_, resolvedFewer, same⟩
      rw [Model.outcome_extract]
      exact extractedFewer

private def tapeField (name type : String) : FieldDefinition :=
  ⟨none, name, [⟨none, "id", .nonNull (.named "ID"), none, []⟩], .named type, []⟩

private def tapeSchema : Document where
  definitions := [
    .type ⟨none, "Query", [], .object [] [tapeField "tape" "Tape", tapeField "side" "Side"]⟩,
    .type ⟨none, "Mutation", [], .object [] [tapeField "rewind" "Tape"]⟩,
    .type ⟨none, "Tape", [], .object [] [⟨none, "id", [], .nonNull (.named "ID"), []⟩]⟩,
    .type ⟨none, "Side", [], .object [] [⟨none, "text", [], .named "String", []⟩]⟩]

private def tapeOperation (kind : OperationKind) (name key : String) : Definition :=
  .operation ⟨none, kind, some name, [⟨none, "id", .nonNull (.named "ID"), none, []⟩], [],
    [.field ⟨none, name, [⟨"id", .variable "id"⟩], []⟩ (some [.field ⟨none, key, [], []⟩ none])]⟩

private def tapeFiles : List DocumentFile :=
  [⟨⟨[tapeOperation .query "tape" "id", tapeOperation .mutation "rewind" "id",
    tapeOperation .query "side" "text"]⟩, none⟩]

private def tapeConfig : Config := { requireNamePrefix := false }

/-- A mutation between two queries, of which the second is called on the first: without the mutation
the queries are counted anew and stay as they are. -/
theorem resolve_kinds_apart_tape : ∃ context models forest,
    (Context.build (.parsed tapeSchema) tapeFiles tapeConfig).outcome = .ok context ∧
    (Model.extract context tapeFiles ∅).1.outcome = .ok models ∧
    (resolve context tapeFiles models).outcome = .ok forest ∧
    forest.walk.map (fun node => (node.operation.name, node.children.length)) =
      [("tape", 1), ("side", 0), ("rewind", 0)] ∧
    (∀ node ∈ forest.walk, ∀ lower ∈ node.walk, lower.operation.kind = node.operation.kind) ∧
    ∃ fewer other,
      (Model.extract context (restrictTo .query tapeFiles) ∅).1.outcome = .ok fewer ∧
      (resolve context (restrictTo .query tapeFiles) fewer).outcome = .ok other ∧
      SameUnindexed (forest.ofKind .query) other := by
  have whole : (do
      let context ← Context.ofDocument tapeSchema tapeFiles tapeConfig
      let models ← context.models tapeFiles
      let forest ← (resolve context tapeFiles models).outcome
      return forest.walk.map fun node => (node.operation.name, node.children.length) :
        Except Error (List (String × Nat))) =
          .ok [("tape", 1), ("side", 0), ("rewind", 0)] := by
    set_option maxRecDepth 4000 in cbv
  obtain ⟨context, built, whole⟩ := Outcome.bind_eq_ok_iff.mp whole
  obtain ⟨models, extracted, whole⟩ := Outcome.bind_eq_ok_iff.mp whole
  obtain ⟨forest, resolved, whole⟩ := Outcome.bind_eq_ok_iff.mp whole
  rw [← Context.outcome_build] at built
  rw [← Model.outcome_extract] at extracted
  obtain ⟨sameKinds, restricted⟩ := resolve_kinds_apart built extracted resolved
  exact ⟨context, models, forest, built, extracted, resolved, Except.ok.inj whole, sameKinds,
    (restricted .query).2⟩

end Forest

end ChainedSdk
