import ChainedSdk.Chain.Resolve
import ChainedSdk.Proofs.Checking
import ChainedSdk.Proofs.DataTypes
import ChainedSdk.Proofs.Inheritance
import ChainedSdk.Proofs.ModelTable
import ChainedSdk.Proofs.Operations
import ChainedSdk.Proofs.Placement
import ChainedSdk.Proofs.Printing
/-!
# Resolved forests have no faults

A parent is only ever chosen among the operations that have a result model, and over coherent models
everything that the nodes of a built forest refer to is there. So the check of a finished forest
has nothing to find.
-/

namespace ChainedSdk

variable {context : Context} {config : Config} {models : Table Model}

/-! ## Results of operations -/

theorem Operation.resultModel?_eq_some {operation : Operation} {model : Model}
    (found : operation.resultModel? models = some model) :
    ∃ name, operation.model? = some name ∧ models.get? name = some model := by
  unfold resultModel? at found
  split at found
  · cases found
  · cases found
  · next name _ isModel => exact ⟨name, isModel, found⟩

theorem Operation.resultModel_congr {others : Table Model} {operation : Operation}
    (same : ∀ name, operation.model? = some name → others.get? name = models.get? name) :
    operation.resultModel? others = operation.resultModel? models := by
  unfold resultModel?
  split
  · rfl
  · rfl
  · next name _ isModel => exact same name isModel

theorem Operation.get?_of_resultModel? (coherent : context.Coherent models)
    {operation : Operation} {model : Model}
    (found : operation.resultModel? models = some model) :
    models.get? model.name = some model := by
  obtain ⟨name, _, present⟩ := resultModel?_eq_some found
  rw [coherent.own name model present]
  exact present

theorem Operation.Reads.typed {operation : Operation} {definition : OperationDefinition}
    (reads : operation.Reads context models definition) (coherent : context.Coherent models) :
    ∃ type, context.type? operation.resultType = some type := by
  obtain ⟨root, field, isRoot, isField, _, isType, _⟩ := reads.result
  exact ⟨field.type, isType ▸ (coherent.fits _ _ isRoot).typed field isField⟩

theorem Operation.Reads.modelled {operation : Operation} {definition : OperationDefinition}
    (reads : operation.Reads context models definition) (coherent : context.Coherent models)
    {name : String} (isModel : operation.model? = some name) : name ∈ models.keys := by
  obtain ⟨root, field, isRoot, isField, _, _, same⟩ := reads.result
  obtain ⟨_, inner, present, _⟩ :=
    (coherent.fits _ _ isRoot).nested field isField name (same.symm.trans isModel)
  exact (Table.mem_keys_iff models name).mpr ⟨inner, present⟩

/-! ## Candidates -/

namespace Candidate

variable {operations : List Operation} {child parent : Operation}

/-- A parent has a single result whose model supplies what the candidate names. -/
theorem suppliedBy?_of_suppliedUnder
    (supplied : suppliedUnder config models child parent ≠ []) :
    ∃ model, parent.resultModel? models = some model ∧ parent.isList = false ∧
      suppliedBy? config model (child.required.filter (·.isIdentifying)) =
        some (suppliedUnder config models child parent) := by
  unfold suppliedUnder at supplied ⊢
  split at supplied
  · exact absurd rfl supplied
  · next suits =>
    rw [if_neg suits]
    split at supplied
    · exact absurd rfl supplied
    · next model isModel =>
      split at supplied
      · exact absurd rfl supplied
      · next extends_ =>
        rw [if_neg extends_]
        unfold parentModel? at isModel
        split at isModel
        · cases isModel
        · next single =>
          refine ⟨model, isModel, Bool.eq_false_iff.mpr single, ?_⟩
          cases found : suppliedBy? config model (child.required.filter (·.isIdentifying)) with
          | none =>
            rw [found] at supplied
            exact absurd rfl supplied
          | some values => rfl

/-- What another operation supplies does not depend on where both are declared. -/
theorem suppliedUnder_unplaced (config : Config) (models : Table Model)
    (child parent : Operation) :
    suppliedUnder config models child.unplaced parent.unplaced =
      suppliedUnder config models child parent := rfl

theorem mem_ranked {candidate : Candidate} :
    candidate ∈ ranked config models operations child ↔ ∃ parent ∈ operations,
      suppliedUnder config models child parent ≠ [] ∧
      candidate = ⟨parent.name, suppliedUnder config models child parent, parent.index⟩ := by
  rw [ranked, List.mem_mergeSort, List.mem_filterMap]
  constructor
  · rintro ⟨parent, isOperation, found⟩
    split at found
    · cases found
    · next some_ =>
      cases found
      exact ⟨parent, isOperation, some_, rfl⟩
  · rintro ⟨parent, isOperation, some_, rfl⟩
    refine ⟨parent, isOperation, ?_⟩
    split
    · next none_ => exact absurd none_ some_
    · rfl

/-- The candidates under a name are those of an operation of that name. -/
theorem exists_child {name : String} {candidate : Candidate}
    (member : candidate ∈ ((ofOperations config models operations).get? name).getD []) :
    ∃ child ∈ operations, child.name = name ∧
      candidate ∈ ranked config models operations child := by
  cases found : (ofOperations config models operations).get? name with
  | none =>
    rw [found] at member
    cases member
  | some candidates =>
    rw [found] at member
    rcases Table.get?_insertAll_mem _ found with isEntry | impossible
    · obtain ⟨child, isOperation, same⟩ := List.mem_map.mp isEntry
      cases same
      exact ⟨child, isOperation, rfl, member⟩
    · cases impossible

theorem get?_ofOperations (distinct : (operations.map (·.name)).Nodup) (isChild : child ∈ operations) :
    (ofOperations config models operations).get? child.name =
      some (ranked config models operations child) := by
  refine Table.get?_insertAll_of_mem _ ?_ ?_
  · rw [List.map_map]
    exact distinct
  · exact List.mem_map_of_mem (f := fun child => (child.name, ranked config models operations child))
      isChild

end Candidate

/-- The parents that some operations choose from their own candidates. -/
def Parents.ofOperations (config : Config) (models : Table Model) (operations : List Operation) :
    Parents :=
  ofCandidates (Candidate.ofOperations config models operations) operations

theorem Parents.exists_of_ofOperations {operations : List Operation} {child parent : String}
    (chosen : (ofCandidates (Candidate.ofOperations config models operations) operations).get?
      child = some parent) :
    ∃ operation ∈ operations, operation.name = parent ∧
      (operation.resultModel? models).isSome := by
  obtain ⟨_, _, rfl, candidate, isCandidate, rfl⟩ := get?_ofCandidates chosen
  obtain ⟨_, _, _, ranked⟩ := Candidate.exists_child isCandidate
  obtain ⟨operation, isOperation, supplied, rfl⟩ := Candidate.mem_ranked.mp ranked
  obtain ⟨model, isModel, _⟩ := Candidate.suppliedBy?_of_suppliedUnder supplied
  exact ⟨operation, isOperation, rfl, Option.isSome_iff_exists.mpr ⟨model, isModel⟩⟩

/-! ## Built forests -/

namespace Node

theorem wellFormed_iff {node : Node} {above : List String} :
    node.WellFormed context models above ↔
      node.operation.name ∉ above ∧
      (∃ type, context.type? node.operation.resultType = some type) ∧
      (∀ name ∈ node.operation.model?, name ∈ models.keys) ∧
      (∀ entry ∈ node.inherited, entry.Resolves context models) ∧
      (node.children ≠ [] → ∃ model, node.model? = some model ∧
        DistinctMethods (model.reserved context.config).keys node.children) ∧
      AllWellFormed context models (above ++ [node.operation.name]) node.children := by
  cases node
  rw [WellFormed]

theorem allWellFormed_iff {nodes : List Node} {above : List String} :
    AllWellFormed context models above nodes ↔
      ∀ node ∈ nodes, node.WellFormed context models above := by
  induction nodes with
  | nil =>
    rw [AllWellFormed]
    constructor
    · intro _ _ impossible
      cases impossible
    · intro _
      trivial
  | cons node rest ih => rw [AllWellFormed, List.forall_mem_cons, ih]

/-- A node above another one stands in the same tree, and the next node down is its child. -/
theorem Below.of_getElem? {root node upper : Node} {higher : List Node}
    (below : root.Below higher node) {index : Nat} (found : higher[index]? = some upper) :
    root.Below (higher.drop (index + 1)) upper ∧
      ∃ child ∈ upper.children, (node :: higher)[index]? = some child := by
  induction below generalizing index with
  | root => cases found
  | @child above parent child below isChild ih =>
    cases index with
    | zero =>
      cases found
      exact ⟨below, child, isChild, rfl⟩
    | succ index => exact ih found

theorem Below.of_mem {root node upper : Node} {higher : List Node}
    (below : root.Below higher node) (member : upper ∈ higher) :
    ∃ further, root.Below further upper := by
  obtain ⟨index, found⟩ := List.mem_iff_getElem?.mp member
  exact ⟨_, (below.of_getElem? found).1⟩

end Node

/-- Methods that were assigned past some reserved names are distinct and leave these alone. -/
theorem distinctMethods_of_assign {parent? : Option String} {reserved : Table String}
    {names : List String} {siblings : List Node}
    (assigned : MethodName.assign config parent? reserved names =
      .ok (siblings.map (·.method))) : DistinctMethods reserved.keys siblings := by
  refine ⟨MethodName.assign_nodup assigned, fun node member taken => ?_⟩
  obtain ⟨owner, owned⟩ := (Table.mem_keys_iff reserved node.method).mp taken
  have free := MethodName.assign_not_reserved assigned node.method (List.mem_map_of_mem member)
  rw [owned] at free
  cases free

namespace Forest

variable {parents : Parents} {operations : List Operation} {forest : Forest}

/-- Distinctly named operations under parents chosen from their candidates are all placed, unless
some siblings cannot be given names. -/
theorem assemble_or_unnamed (config : Config) (models : Table Model)
    (distinct : (operations.map (·.name)).Nodup) :
    (∃ parent? reserved names error,
      MethodName.assign config parent? reserved names = .error error ∧
        (assemble config models (Candidate.ofOperations config models operations)
          operations).outcome = .error error) ∨
    ∃ forest, (assemble config models (Candidate.ofOperations config models operations)
        operations).outcome = .ok forest ∧
      Grown config models (Parents.ofCandidates (Candidate.ofOperations config models operations)
        operations) operations forest ∧ forest.Arranges operations := by
  rw [outcome_assemble]
  exact arranges_or_unnamed (Parents.acyclic_ofCandidates _ _) distinct
    fun _ _ => Parents.exists_of_ofOperations

theorem grown_of_assemble (distinct : (operations.map (·.name)).Nodup)
    (assembled : (assemble config models (Candidate.ofOperations config models operations)
      operations).outcome = .ok forest) :
    Grown config models (Parents.ofCandidates (Candidate.ofOperations config models operations)
      operations) operations forest ∧ forest.Arranges operations := by
  rcases assemble_or_unnamed config models distinct with
    ⟨_, _, _, _, _, failed⟩ | ⟨other, placed, grown, arranges⟩
  · rw [assembled] at failed
    cases failed
  · rw [assembled] at placed
    cases placed
    exact ⟨grown, arranges⟩

/-- What a node inherits is supplied by a key field of some model that is there. -/
theorem Grown.exists_supplier (grown : Grown config models parents operations forest)
    (coherent : context.Coherent models) {node : Node} (isNode : node ∈ forest.walk)
    {value : Inherited} (member : value ∈ node.inherited) :
    value.input ∈ node.operation.inputs ∧ ∃ (model : Model) (field : ModelField),
      models.get? model.name = some model ∧ field ∈ model.keyFields config ∧
      field.supplies value.input ∧ value.model = model.name ∧ value.field = field.name := by
  obtain ⟨entry, isEntry, root, isRoot, inTree⟩ := mem_walk.mp isNode
  obtain ⟨higher, below⟩ := Node.mem_walk_iff_below.mp inTree
  rw [(grown.settled entry isEntry root isRoot higher node below).inherited_eq] at member
  obtain ⟨isInput, found⟩ := Operation.mem_inherited.mp member
  obtain ⟨_, model, field, isAbove, isKey, supplies, _, sameModel, sameField, _⟩ :=
    Variable.inherited?_eq_some found
  obtain ⟨upper, isUpper, isModel⟩ := List.mem_filterMap.mp (List.mem_of_getElem? isAbove)
  obtain ⟨further, upperBelow⟩ := below.of_mem isUpper
  rw [(grown.settled entry isEntry root isRoot further upper upperBelow).model_eq] at isModel
  have present := Operation.get?_of_resultModel? coherent isModel
  exact ⟨isInput, model, field, present, isKey, supplies, sameModel, sameField⟩

theorem Grown.resolves (grown : Grown config models parents operations forest)
    (coherent : context.Coherent models) {node : Node} (isNode : node ∈ forest.walk) :
    ∀ value ∈ node.inherited, value.Resolves context models := by
  intro value member
  obtain ⟨_, model, field, present, isKey, _, sameModel, sameField⟩ :=
    grown.exists_supplier coherent isNode member
  have isField := Model.mem_fields_of_mem_keyFields isKey
  cases isFirst : model.field? field.name with
  | none =>
    have differs := List.find?_eq_none.mp isFirst field isField
    exact absurd (decide_eq_true rfl) differs
  | some first =>
    refine ⟨model, first, first.type, sameModel ▸ present, sameField ▸ isFirst, ?_⟩
    exact (coherent.fits _ _ present).typed first (List.mem_of_find?_eq_some isFirst)

/-- Over coherent models the nodes of a grown forest have known types. -/
theorem Grown.printable (grown : Grown context.config models parents operations forest)
    (coherent : context.Coherent models)
    (read : ∀ operation ∈ operations, ∃ definition, operation.Reads context models definition) :
    ∀ node ∈ forest.walk, node.Printable context := by
  intro node member
  obtain ⟨definition, reads⟩ := read _ (grown.operation_mem member)
  obtain ⟨higher, settled⟩ := grown.exists_settled member
  refine ⟨⟨fun input isInput => ?_, reads.typed coherent⟩, fun input isArgument => ?_⟩
  · obtain ⟨declared, _, readInput⟩ := Outcome.exists_of_forall₂ reads.inputs isInput
    exact (readVariable_eq_ok readInput).2
  · rw [settled.arguments_eq] at isArgument
    exact (Operation.mem_arguments.mp isArgument).1

/-- Over coherent models a forest that holds every operation once has no faults. -/
theorem Grown.wellFormed (grown : Grown context.config models parents operations forest)
    (arranges : forest.Arranges operations) (coherent : context.Coherent models)
    (read : ∀ operation ∈ operations, ∃ definition, operation.Reads context models definition) :
    forest.WellFormed context models := by
  intro entry isEntry
  have placed (node : Node) : ∀ root ∈ entry.2, ∀ higher, root.Below higher node →
      node.WellFormed context models (higher.map (·.operation.name)).reverse := by
    induction node using Node.induction_children with
    | step node ih =>
      intro root isRoot higher below
      have settled := grown.settled entry isEntry root isRoot higher node below
      have isNode := mem_walk_of_below isEntry isRoot below
      obtain ⟨definition, reads⟩ := read _ (grown.operation_mem isNode)
      refine Node.wellFormed_iff.mpr ⟨fun again => ?_, reads.typed coherent,
        fun name isModel => reads.modelled coherent isModel,
        grown.resolves coherent isNode, fun some_ => ?_, ?_⟩
      · have distinct := arranges.distinctUpward entry isEntry root isRoot higher node below
        exact (List.nodup_cons.mp distinct).1 (List.mem_reverse.mp again)
      · obtain ⟨model, isModel, assigned⟩ := settled.named.resolve_left some_
        exact ⟨model, isModel, distinctMethods_of_assign assigned⟩
      · refine Node.allWellFormed_iff.mpr fun child isChild => ?_
        have lower := ih child isChild root isRoot (node :: higher) (.child below isChild)
        rw [List.map_cons, List.reverse_cons] at lower
        exact lower
  exact ⟨distinctMethods_of_assign (grown.named entry isEntry),
    Node.allWellFormed_iff.mpr fun root isRoot => placed root root isRoot [] .root⟩

end Forest

/-! ## From documents to forests -/

theorem mem_definitionsOf {documents : List DocumentFile} {operation : OperationDefinition}
    (member : operation ∈ operationsOf documents) :
    .operation operation ∈ Context.definitionsOf documents := by
  obtain ⟨file, isFile, inFile⟩ := List.mem_flatMap.mp member
  obtain ⟨definition, isDefinition, isOperation⟩ := List.mem_filterMap.mp inFile
  split at isOperation
  · cases isOperation
    exact List.mem_flatMap.mpr ⟨file, isFile, isDefinition⟩
  · cases isOperation

/-- Extracted models are coherent and enclosed, and every operation has a name and a root model. -/
theorem Context.spec_of_models {schema : Document} {files documents : List DocumentFile}
    {config : Config} {context : Context} {models : List Model}
    (built : Context.ofDocument schema files config = .ok context)
    (extracted : context.models documents = .ok models) :
    context.Coherent (modelTable models) ∧ Enclosed [] models ∧
      ∀ definition ∈ operationsOf documents, ∃ name root, definition.name? = some name ∧
        (modelTable models).get? (Names.operationModel name definition.kind) = some root := by
  obtain ⟨sites, _, atRoot, lists, _⟩ := Context.lists_of_models extracted
  have enclosed : Enclosed [] models := lists.enclosed fun site member =>
    Or.inl (atRoot site member)
  obtain ⟨made, makes, rfl⟩ := Context.makesAll_of_models extracted
  have own := Context.ownNames_ofDocument built
  have coherent := makes.coherent own (Context.coherent_empty context)
  rw [coherent.modelTable_values]
  exact ⟨coherent, enclosed, fun definition member => makes.exists_root (mem_definitionsOf member)⟩

namespace Forest

theorem outcome_resolve (context : Context) (documents : List DocumentFile)
    (models : List Model) : (resolve context documents models).outcome = do
      let operations ← (collectOperations context (modelTable models) documents).outcome
      let forest ← (assemble context.config (modelTable models)
        (Candidate.ofOperations context.config (modelTable models) operations) operations).outcome
      forest.check context (modelTable models)
      return forest := by
  unfold resolve
  simp only [Reported.outcome_bind]
  cases (collectOperations context (modelTable models) documents).outcome with
  | error error => rfl
  | ok operations =>
    dsimp only [Reported.info, Reported.report, Except.bind, bind]
    cases (assemble context.config (modelTable models)
        (Candidate.ofOperations context.config (modelTable models) operations)
        operations).outcome with
    | error error => rfl
    | ok forest =>
      dsimp only [Reported.outcome_ofOutcome]
      cases forest.check context (modelTable models) with
      | error error => rfl
      | ok _ => rfl

/-- A resolved forest is grown from the operations that the documents' operations are read as, and
holds each of them once. -/
theorem grown_of_resolve {documents : List DocumentFile} {models : List Model} {forest : Forest}
    (resolved : (resolve context documents models).outcome = .ok forest) : ∃ operations,
      List.Forall₂ (fun definition operation =>
        operation.Reads context (modelTable models) definition)
        (operationsOf documents) operations ∧
      (operations.map (·.name)).Nodup ∧
      Grown context.config (modelTable models)
        (Parents.ofCandidates (Candidate.ofOperations context.config (modelTable models) operations)
          operations) operations forest ∧ forest.Arranges operations := by
  rw [outcome_resolve] at resolved
  obtain ⟨operations, collected, onward⟩ := Outcome.bind_eq_ok_iff.mp resolved
  obtain ⟨assembled, placed, checked⟩ := Outcome.bind_eq_ok_iff.mp onward
  obtain ⟨_, _, same⟩ := Outcome.bind_eq_ok_iff.mp checked
  cases same
  obtain ⟨reads, distinct⟩ := collectOperations_eq_ok collected
  exact ⟨operations, reads, distinct, grown_of_assemble distinct placed⟩

end Forest

end ChainedSdk
