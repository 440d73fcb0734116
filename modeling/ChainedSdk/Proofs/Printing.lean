import ChainedSdk.Proofs.DataTypes
import ChainedSdk.Proofs.Trees
import ChainedSdk.Sdk.Output
/-!
# Printing does not fail

Writing an SDK down looks up the types of variables and results and the data types of models. Where
the types are known and every model is a root selection or held by a later one, nothing is missing.
-/

namespace ChainedSdk

/-- The types of an operation's variables and of its result are known. -/
structure Operation.Typed (operation : Operation) (context : Context) : Prop where
  inputs : ∀ input ∈ operation.inputs, ∃ type, context.type? input.typeName = some type
  result : ∃ type, context.type? operation.resultType = some type

/-- What is printed of a node has known types. -/
structure Node.Printable (node : Node) (context : Context) : Prop where
  typed : node.operation.Typed context
  arguments : ∀ input ∈ node.arguments, input ∈ node.operation.inputs

namespace Sdk

variable {context : Context} {operation : Operation} {node : Node} {forest : Forest}

theorem exists_targetTypeNamed {name : String}
    (known : ∃ type, context.type? name = some type) :
    ∃ target, context.targetTypeNamed name = .ok target := by
  obtain ⟨type, found⟩ := known
  refine ⟨context.targetType type, ?_⟩
  unfold Context.targetTypeNamed
  rw [found]

theorem exists_variableType {input : Variable}
    (known : ∃ type, context.type? input.typeName = some type) :
    ∃ type, variableType context input = .ok type := by
  obtain ⟨target, found⟩ := exists_targetTypeNamed known
  exact ⟨_, Outcome.map_eq_ok_iff.mpr ⟨target, found, rfl⟩⟩

theorem exists_requiredParameter {input : Variable}
    (known : ∃ type, context.type? input.typeName = some type) :
    ∃ parameter, requiredParameter context input = .ok parameter := by
  obtain ⟨type, found⟩ := exists_variableType known
  exact ⟨_, Outcome.map_eq_ok_iff.mpr ⟨type, found, rfl⟩⟩

theorem exists_fetchArgument (inherited : List Inherited) {input : Variable}
    (known : ∃ type, context.type? input.typeName = some type) :
    ∃ argument, fetchArgument context inherited input = .ok argument := by
  unfold fetchArgument
  split
  · exact ⟨_, rfl⟩
  · split
    · exact ⟨_, rfl⟩
    · obtain ⟨type, found⟩ := exists_variableType known
      exact ⟨_, Outcome.map_eq_ok_iff.mpr ⟨type, found, rfl⟩⟩

theorem exists_fetchParameters (typed : operation.Typed context) :
    ∃ parameters, fetchParameters context operation = .ok parameters := by
  have takes : ∀ input ∈ operation.required,
      ∃ parameter, requiredParameter context input = .ok parameter := fun input member =>
    exists_requiredParameter (typed.inputs input (List.mem_filter.mp member).1)
  obtain ⟨required, found⟩ := Outcome.exists_mapM_eq_ok takes
  exact ⟨_, Outcome.bind_eq_ok_iff.mpr ⟨required, found, rfl⟩⟩

theorem exists_chainMethod (parent : Model) (printable : node.Printable context) :
    ∃ method, chainMethod context parent node = .ok method := by
  have passes : ∀ input ∈ node.operation.required,
      ∃ argument, fetchArgument context node.inherited input = .ok argument := fun input member =>
    exists_fetchArgument _ (printable.typed.inputs input (List.mem_filter.mp member).1)
  have takes : ∀ input ∈ node.arguments.filter Variable.isRequired,
      ∃ parameter, requiredParameter context input = .ok parameter := fun input member =>
    exists_requiredParameter (printable.typed.inputs input
      (printable.arguments input (List.mem_filter.mp member).1))
  obtain ⟨arguments, passed⟩ := Outcome.exists_mapM_eq_ok passes
  obtain ⟨parameters, taken⟩ := Outcome.exists_mapM_eq_ok takes
  exact ⟨_, Outcome.bind_eq_ok_iff.mpr ⟨arguments, passed,
    Outcome.bind_eq_ok_iff.mpr ⟨parameters, taken, rfl⟩⟩⟩

theorem exists_entryMethod (printable : node.Printable context) :
    ∃ method, entryMethod context node = .ok method := by
  obtain ⟨parameters, found⟩ := exists_fetchParameters printable.typed
  exact ⟨_, Outcome.bind_eq_ok_iff.mpr ⟨parameters, found, rfl⟩⟩

theorem exists_nodeMethods (printable : ∀ child ∈ node.children, child.Printable context) :
    ∃ methods, nodeMethods context node = .ok methods := by
  unfold nodeMethods
  split
  · exact ⟨_, rfl⟩
  · exact ⟨_, rfl⟩
  · next model _ _ =>
    obtain ⟨methods, found⟩ := Outcome.exists_mapM_eq_ok fun child member =>
      exists_chainMethod model (printable child member)
    exact ⟨_, Outcome.bind_eq_ok_iff.mpr ⟨methods, found, rfl⟩⟩

theorem exists_chainMethods (printable : ∀ node ∈ forest.walk, node.Printable context) :
    ∃ methods, chainMethods context forest = .ok methods := by
  have each : ∀ node ∈ forest.walk, ∃ methods, nodeMethods context node = .ok methods := by
    intro node member
    exact exists_nodeMethods fun child isChild =>
      printable child (Forest.mem_walk_of_child member isChild)
  obtain ⟨lists, found⟩ := Outcome.exists_mapM_eq_ok each
  exact ⟨_, Outcome.bind_eq_ok_iff.mpr ⟨lists, found, rfl⟩⟩

theorem exists_modelClass {types : Table String} (methods : Table (List Method)) {model : Model}
    (known : types.contains model.name) :
    ∃ printed, modelClass context types methods model = .ok printed := by
  obtain ⟨dataType, found⟩ := Option.isSome_iff_exists.mp known
  unfold modelClass
  rw [found]
  exact ⟨_, rfl⟩

theorem exists_modelClasses {models : List Model} (enclosed : Enclosed [] models)
    (printable : ∀ node ∈ forest.walk, node.Printable context) :
    ∃ classes, modelClasses context models forest = .ok classes := by
  obtain ⟨methods, found⟩ := exists_chainMethods printable
  have each : ∀ model ∈ models.filter (fun model => !isOperationRoot model),
      ∃ printed, modelClass context (dataTypes models) methods model = .ok printed :=
    fun model member =>
      exists_modelClass methods (enclosed.contains_dataTypes (List.mem_filter.mp member).1).1
  obtain ⟨classes, printed⟩ := Outcome.exists_mapM_eq_ok each
  exact ⟨classes, Outcome.bind_eq_ok_iff.mpr ⟨methods, found, printed⟩⟩

theorem exists_operationClass (printable : node.Printable context) :
    ∃ printed, operationClass context node = .ok printed := by
  obtain ⟨parameters, taken⟩ := exists_fetchParameters printable.typed
  obtain ⟨target, found⟩ := exists_targetTypeNamed printable.typed.result
  exact ⟨_, Outcome.bind_eq_ok_iff.mpr ⟨parameters, taken,
    Outcome.bind_eq_ok_iff.mpr ⟨_, Outcome.bind_eq_ok_iff.mpr ⟨target, found, rfl⟩, rfl⟩⟩⟩

theorem exists_entryClass (printable : ∀ node ∈ forest.walk, node.Printable context) :
    ∃ printed, entryClass context forest = .ok printed := by
  have each : ∀ root ∈ forest.flatMap (fun entry => entry.2),
      ∃ method, entryMethod context root = .ok method := by
    intro root member
    obtain ⟨entry, isEntry, isRoot⟩ := List.mem_flatMap.mp member
    refine exists_entryMethod (printable root (Forest.mem_walk.mpr ?_))
    exact ⟨entry, isEntry, root, isRoot, Node.mem_walk.mpr (Or.inl rfl)⟩
  obtain ⟨methods, found⟩ := Outcome.exists_mapM_eq_ok each
  exact ⟨_, Outcome.bind_eq_ok_iff.mpr ⟨methods, found, rfl⟩⟩

/-- A forest with known types over models in the order of extraction is written down. -/
theorem exists_print {models : List Model} (templates : Templates)
    (enclosed : Enclosed [] models)
    (printable : ∀ node ∈ forest.walk, node.Printable context) :
    ∃ output, (print ⟨context, models, forest⟩ templates).outcome = .ok output := by
  obtain ⟨classes, printedModels⟩ := exists_modelClasses enclosed printable
  obtain ⟨operations, printedOperations⟩ :=
    Outcome.exists_mapM_eq_ok fun node member => exists_operationClass (printable node member)
  obtain ⟨entry, printedEntry⟩ := exists_entryClass printable
  have opened : operationClasses context forest = .ok operations := printedOperations
  unfold print
  dsimp only
  rw [printedModels, opened, printedEntry]
  exact ⟨_, rfl⟩

end Sdk

end ChainedSdk
