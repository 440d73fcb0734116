import ChainedSdk.Chain.Node
import ChainedSdk.Schema.Context
/-!
# Well-formed forests

A finished forest is checked as a whole: siblings have distinct methods that leave the key fields
of the model above them alone, no operation stands below itself, and everything that a node refers
to is there. `Forest.check` stops at the first fault; `Forest.WellFormed` says what it means to
have none.
-/

namespace ChainedSdk

namespace Forest

/-- Fails at the first sibling whose method has an owner already. -/
def checkSiblings (parent? : Option String) (owners : Table String) :
    List Node → Except Error Unit
  | [] => .ok ()
  | node :: rest =>
    match owners.get? node.method with
    | some owner => .error (.methodConflict node.method owner node.operation.name parent?)
    | none => checkSiblings parent? (owners.insert node.method node.operation.name) rest

/-- Fails at the first inherited value whose model, field or type is not there. -/
def checkInherited (context : Context) (models : Table Model) (operation : String) :
    List Inherited → Except Error Unit
  | [] => .ok ()
  | entry :: rest =>
    match models.get? entry.model with
    | none => .error (.unresolved operation (.model entry.model))
    | some model =>
      match (model.field? entry.field).bind fun field => context.type? field.type.name with
      | none => .error (.unresolved operation (.modelField entry.model entry.field))
      | some _ => checkInherited context models operation rest

/-- Fails where an operation stands below itself, or where its result type or model is not there. -/
def checkOperation (context : Context) (models : Table Model) (above : List String)
    (operation : Operation) : Except Error Unit :=
  if above.contains operation.name then .error (.ownAncestor operation.name)
  else if (context.type? operation.resultType).isNone then
    .error (.unresolved operation.name (.type operation.resultType))
  else match operation.model? with
    | none => .ok ()
    | some model =>
      if models.contains model then .ok () else .error (.unresolved operation.name (.model model))

/-- What a node with children but without a model lacks. -/
def lackingModel (operation : Operation) : Reference :=
  match operation.model? with
  | none | some "" => .type operation.resultType
  | some model => .model model

mutual

/-- Fails at the first fault of a tree below some operations. -/
def checkNode (context : Context) (models : Table Model) (above : List String) :
    Node → Except Error Unit
  | ⟨operation, _, _, _, inherited, model?, children⟩ => do
    checkOperation context models above operation
    checkInherited context models operation.name inherited
    match children, model? with
    | [], _ => return ()
    | _ :: _, none => throw (.unresolved operation.name (lackingModel operation))
    | _ :: _, some model =>
      checkSiblings (some operation.name) (model.reserved context.config) children
      checkNodes context models (above ++ [operation.name]) children

def checkNodes (context : Context) (models : Table Model) (above : List String) :
    List Node → Except Error Unit
  | [] => return ()
  | node :: rest => do
    checkNode context models above node
    checkNodes context models above rest

end

def check (context : Context) (models : Table Model) (forest : Forest) : Except Error Unit :=
  forest.forM fun entry => do
    checkSiblings none ∅ entry.2
    checkNodes context models [] entry.2

end Forest

/-- The methods of some siblings are distinct and none is among the names taken before. -/
def DistinctMethods (taken : List String) (siblings : List Node) : Prop :=
  (siblings.map (·.method)).Nodup ∧ ∀ node ∈ siblings, node.method ∉ taken

/-- An inherited value names a field of a known model whose type is known. -/
def Inherited.Resolves (entry : Inherited) (context : Context) (models : Table Model) : Prop :=
  ∃ model field type, models.get? entry.model = some model ∧
    model.field? entry.field = some field ∧ context.type? field.type.name = some type

mutual

/-- A tree without faults below some operations. -/
def Node.WellFormed (context : Context) (models : Table Model) (above : List String) :
    Node → Prop
  | ⟨operation, _, _, _, inherited, model?, children⟩ =>
    operation.name ∉ above ∧
    (∃ type, context.type? operation.resultType = some type) ∧
    (∀ name ∈ operation.model?, name ∈ models.keys) ∧
    (∀ entry ∈ inherited, entry.Resolves context models) ∧
    (children ≠ [] → ∃ model, model? = some model ∧
      DistinctMethods (model.reserved context.config).keys children) ∧
    Node.AllWellFormed context models (above ++ [operation.name]) children

def Node.AllWellFormed (context : Context) (models : Table Model) (above : List String) :
    List Node → Prop
  | [] => True
  | node :: rest =>
    node.WellFormed context models above ∧ Node.AllWellFormed context models above rest

end

/-- A forest without faults. -/
def Forest.WellFormed (context : Context) (models : Table Model) (forest : Forest) : Prop :=
  ∀ entry ∈ forest, DistinctMethods [] entry.2 ∧ Node.AllWellFormed context models [] entry.2

end ChainedSdk
