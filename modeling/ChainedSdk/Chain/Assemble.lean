import ChainedSdk.Chain.MethodName
import ChainedSdk.Chain.Node
import ChainedSdk.Chain.Parents
import ChainedSdk.Report
/-!
# Assembling a forest

Once every operation has chosen its parent, the forest is built from the roots down. Every node
takes its children out of the operations still to be placed, so the building ends whatever the
parents are.
-/

namespace ChainedSdk

/-- The operations that have chosen a parent, or none. -/
def Parents.childrenOf (parents : Parents) (parent? : Option String)
    (operations : List Operation) : List Operation :=
  operations.filter fun operation => parents.get? operation.name = parent?

def Parents.othersThan (parents : Parents) (parent : String) (operations : List Operation) :
    List Operation :=
  operations.filter fun operation => !(parents.get? operation.name = some parent)

theorem Parents.length_othersThan_lt (parents : Parents) (parent : String)
    (operations : List Operation) (some_ : parents.childrenOf (some parent) operations ≠ []) :
    (parents.othersThan parent operations).length < operations.length := by
  obtain ⟨operation, member⟩ := List.exists_mem_of_ne_nil _ some_
  have kept := List.mem_filter.mp member
  refine List.length_filter_lt_length_iff_exists.mpr ⟨operation, kept.1, ?_⟩
  simpa using kept.2

/-- The tree of an operation under the models above it, nearest first, with the operations that are
still to be placed. -/
def Node.build (config : Config) (models : Table Model) (parents : Parents)
    (pending : List Operation) (above : List Model) (path : List String)
    (operation : Operation) (method : String) : Except Error Node := do
  let model? := operation.resultModel? models
  let node : Node := {
    operation, method, path, model?
    arguments := operation.arguments config above
    inherited := operation.inherited config above
    children := [] }
  let children := parents.childrenOf (some operation.name) pending
  if _some : children ≠ [] then
    match model? with
    | none => throw (.missing (.resultModel operation.name))
    | some model =>
      let methods ← MethodName.assign config (some operation.name) (model.reserved config)
        (children.map (·.name))
      let rest := parents.othersThan operation.name pending
      let nodes ← (children.zip methods).mapM fun child =>
        Node.build config models parents rest (model :: above) (path ++ [model.name])
          child.1 child.2
      return { node with children := nodes }
  else return node
termination_by pending.length
decreasing_by exact parents.length_othersThan_lt _ _ _some

namespace Forest

def buildKind (config : Config) (models : Table Model) (parents : Parents)
    (operations roots : List Operation) (kind : OperationKind) :
    Except Error (OperationKind × List Node) := do
  let own := roots.filter fun operation => operation.kind = kind
  let methods ← MethodName.assign config none ∅ (own.map (·.name))
  let nodes ← (own.zip methods).mapM fun root =>
    Node.build config models parents operations [] [] root.1 root.2
  return (kind, nodes)

def build (config : Config) (models : Table Model) (parents : Parents)
    (operations : List Operation) : Except Error Forest :=
  let roots := parents.childrenOf none operations
  (roots.map (·.kind)).eraseDups.mapM (buildKind config models parents operations roots)

/-- The operations that a forest leaves out, sorted by name. -/
def leftOut (forest : Forest) (operations : List Operation) : List String :=
  let placed := forest.walk.map fun node => node.operation.name
  ((operations.map (·.name)).eraseDups.filter fun name => !placed.contains name).mergeSort
    fun first second => first ≤ second

/-- The forest of some operations under chosen parents, which has to hold all of them. -/
def ofParents (config : Config) (models : Table Model) (parents : Parents)
    (operations : List Operation) : Except Error Forest := do
  let forest ← build config models parents operations
  match forest.leftOut operations with
  | [] => return forest
  | names => throw (.unreachable names)

end Forest

/-- What is reported of a choice: every candidate that was passed over, and the parent. -/
def ParentChoice.records (choice : ParentChoice) : List Record :=
  choice.skipped.map (fun parent => {
    level := .debug
    stage := Stage.chain
    message := "Skipping parent that would form a cycle"
    data := [("operation", .text choice.operation), ("parent", .text parent)] }) ++
  choice.parent?.toList.map fun parent => {
    level := .debug
    stage := Stage.chain
    message := "Chained operation"
    data := [("operation", .text choice.operation), ("parent", .text parent)] }

/-- The forest of some operations with candidates for their parents. -/
def Forest.assemble (config : Config) (models : Table Model) (candidates : Candidates)
    (operations : List Operation) : Reported Forest := do
  let (choices, parents) := ParentChoice.chooseAll candidates ∅ operations
  Reported.report (choices.flatMap (·.records))
  liftM (Forest.ofParents config models parents operations)

end ChainedSdk
