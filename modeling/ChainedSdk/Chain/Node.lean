import ChainedSdk.Chain.Inherit
import ChainedSdk.Json.Basic
/-!
# Chain trees

A node is an operation with the operations that are called on its result. A forest holds the roots
of each kind of operations.
-/

namespace ChainedSdk

/-- A node of a chain tree. The path holds the names of the result models above it, root first. -/
structure Node where
  operation : Operation
  method : String
  path : List String
  arguments : List Variable
  inherited : List Inherited
  model? : Option Model
  children : List Node
deriving BEq, Repr, Inhabited

/-- The roots of each kind, the kinds in order of their first root. -/
abbrev Forest := List (OperationKind × List Node)

mutual

/-- A node and all nodes below it, each before its children. -/
def Node.walk : Node → List Node
  | ⟨operation, method, path, arguments, inherited, model?, children⟩ =>
    ⟨operation, method, path, arguments, inherited, model?, children⟩ :: Node.walkAll children

def Node.walkAll : List Node → List Node
  | [] => []
  | node :: rest => node.walk ++ Node.walkAll rest

end

mutual

/-- A node whose arguments are split anew under the models above it, nearest first. -/
def Node.reinherit (config : Config) (above : List Model) : Node → Node
  | ⟨operation, method, path, _, _, model?, children⟩ => {
    operation, method, path, model?
    arguments := operation.arguments config above
    inherited := operation.inherited config above
    children := Node.reinheritAll config (model?.toList ++ above) children }

def Node.reinheritAll (config : Config) (above : List Model) : List Node → List Node
  | [] => []
  | node :: rest => node.reinherit config above :: Node.reinheritAll config above rest

end

mutual

/-- A node as reports show it. -/
def Node.summary : Node → Json
  | ⟨operation, method, path, arguments, inherited, model?, children⟩ => .object [
    ("operation", .text operation.name),
    ("method", .text method),
    ("path", .texts path),
    ("arguments", .texts (arguments.map (·.name))),
    ("inherited", .texts (inherited.map fun entry =>
      entry.input.name ++ "<-" ++ entry.model ++ "." ++ entry.field)),
    ("model", match model? with
      | some model => .text model.name
      | none => .null),
    ("children", .array (Node.summaries children))]

def Node.summaries : List Node → List Json
  | [] => []
  | node :: rest => node.summary :: Node.summaries rest

end

namespace Forest

/-- All nodes of a forest, each before its children. -/
def walk (forest : Forest) : List Node := forest.flatMap fun entry => Node.walkAll entry.2

/-- A forest whose arguments are split anew from the models above every node. -/
def reinherit (config : Config) (forest : Forest) : Forest :=
  forest.map fun entry => (entry.1, Node.reinheritAll config [] entry.2)

def summary (forest : Forest) : Json :=
  .object (forest.map fun entry => (entry.1.text, .array (Node.summaries entry.2)))

end Forest

end ChainedSdk
