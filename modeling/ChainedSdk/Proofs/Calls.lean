import ChainedSdk.Proofs.PrintedClasses
import ChainedSdk.Sdk.Output
/-!
# Calls of generated methods

What generated code does with values when its methods are called one on the result of the other.
An object of a model class has what the base class keeps in it, the requester and the chain that
came with the object, and its properties. A method of the object hands the chain on with the entries
of the object behind it, and evaluates the arguments for `fetch` on the object.

A property may have the name of a field of the base class. Then it stands in the place of the
requester, and no request is made from the object, or in the place of the chain, and what came along
is lost. All this is about code that is loaded; a class with two constructors never is.
-/

namespace ChainedSdk

variable {Datum : Type}

/-! ## Members of every class -/

/-- The fields that the base class of all generated classes declares. -/
def baseFields : List String := ["_request", "_chain"]

/-- The members that every generated class has besides its own. -/
def fixedMembers : List String := "constructor" :: baseFields

theorem Requester.declares_baseFields (requester : Requester) :
    ∀ name ∈ baseFields, ∃ type,
      "  protected " ++ name ++ ": " ++ type ++ ";" ∈ requester.lines := by
  have request : "  protected _request: " = "  protected " ++ "_request" ++ ": " := by decide
  have chain : "  protected _chain: Record<string, unknown>;" =
      "  protected " ++ "_chain" ++ ": " ++ "Record<string, unknown>" ++ ";" := by decide
  rintro name (_ | ⟨_, _ | ⟨_, impossible⟩⟩)
  · refine ⟨requester.name, ?_⟩
    rw [← request]
    simp [lines]
  · refine ⟨"Record<string, unknown>", ?_⟩
    rw [← chain]
    simp [lines]
  · cases impossible

/-- A constructor is written like a method of this name. -/
theorem ModelClass.constructorText_eq (requester : Requester) (class_ : ModelClass) :
    ∃ parameters body, class_.constructorText requester =
      braced "  " ("public " ++ "constructor" ++ "(" ++ parameters ++ ")") body := by
  refine ⟨"request: " ++ requester.name ++ ", data: " ++ class_.dataType ++
    ", chain: Record<string, unknown> = \x7b\x7d", _, congrArg (braced "  " · _) ?_⟩
  have opening : "public constructor(request: " =
      "public " ++ "constructor" ++ "(" ++ "request: " := by decide
  have closing : ", chain: Record<string, unknown> = \x7b\x7d)" =
      ", chain: Record<string, unknown> = \x7b\x7d" ++ ")" := by decide
  rw [opening, closing]
  simp only [String.append_assoc]

/-! ## Objects -/

/-- What an object has under a name. A value on a chain may be undefined. -/
inductive Member (Datum : Type) where
  | requester
  | chain (entries : Table (Option Datum))
  | value (datum : Datum)

/-- Whether objects of a class have a property of some name. -/
def ModelClass.declares (class_ : ModelClass) (name : String) : Bool :=
  name ∈ class_.properties.map (·.name)

theorem ModelClass.declares_iff {class_ : ModelClass} {name : String} :
    class_.declares name ↔ ∃ property ∈ class_.properties, property.name = name := by
  rw [declares, decide_eq_true_eq, List.mem_map]

/-- An object of a model class, with what its constructor got: the values of its properties from the
response, and the chain. -/
structure Instance (Datum : Type) where
  class_ : ModelClass
  data : String → Datum
  chain : Table (Option Datum)

namespace Instance

/-- The fields of the base class are set first, then the properties. Properties are declared, so
each is a member of the object itself whatever its name is. -/
def members (object : Instance Datum) : Table (Member Datum) :=
  (Table.ofList [("_request", .requester), ("_chain", .chain object.chain)]).insertAll
    (object.class_.properties.map fun property =>
      (property.name, .value (object.data property.name)))

def hasRequester (object : Instance Datum) : Bool :=
  match object.members.get? "_request" with
  | some .requester => true
  | _ => false

/-- The value of a property. What the class does not declare is undefined. -/
def value? (object : Instance Datum) (name : String) : Option Datum :=
  match object.members.get? name with
  | some (.value datum) => some datum
  | _ => none

/-- What is read from an object as its chain. In the place of a chain there may be a value from the
response; `spread` tells which entries such a value has under keys as they are written, in quotes.
Those of a text are its letters, and a number has none. -/
def carried (spread : Datum → Table (Option Datum)) (object : Instance Datum) :
    Table (Option Datum) :=
  match object.members.get? "_chain" with
  | some (.chain entries) => entries
  | some (.value datum) => spread datum
  | _ => ∅

/-- The method that makes a request when it is called on an object. Members of the object hide
methods of their name, a second constructor is no method, and without the requester there is no
request. -/
def call? (object : Instance Datum) (name : String) : Option Method :=
  if object.hasRequester && name ≠ "constructor" && !object.members.contains name then
    object.class_.methods.find? fun method => method.name = name
  else none

/-- The value of an argument in a method of the object that was given some values. -/
def evaluate? (spread : Datum → Table (Option Datum)) (object : Instance Datum)
    (given : String → Option Datum) : FetchArgument → Option Datum
  | .parameter name => given name
  | .ownField field => object.value? field
  | .chained key _ => ((object.carried spread).get? key.text).join

variable (object : Instance Datum) (name : String)

theorem get?_members : object.members.get? name =
    if object.class_.declares name then some (.value (object.data name))
    else (Table.ofList [("_request", .requester), ("_chain", .chain object.chain)]).get? name := by
  simp only [ModelClass.declares, decide_eq_true_eq]
  exact Table.get?_insertAll_map _ object.class_.properties Property.name
    (fun name => Member.value (object.data name)) name

theorem hasRequester_eq : object.hasRequester = !object.class_.declares "_request" := by
  rw [hasRequester, get?_members]
  cases object.class_.declares "_request" <;> rfl

theorem carried_eq (spread : Datum → Table (Option Datum)) : object.carried spread =
    if object.class_.declares "_chain" then spread (object.data "_chain") else object.chain := by
  rw [carried, get?_members]
  cases object.class_.declares "_chain" <;> rfl

theorem value?_of_declares {name : String} (declared : object.class_.declares name) :
    object.value? name = some (object.data name) := by
  rw [value?, get?_members, if_pos declared]

theorem contains_members : object.members.contains name =
    (object.class_.declares name || decide (name ∈ baseFields)) := by
  rw [Table.contains, get?_members]
  cases object.class_.declares name with
  | true => rfl
  | false =>
    by_cases isRequest : name = "_request"
    · subst isRequest
      rfl
    · by_cases isChain : name = "_chain"
      · subst isChain
        rfl
      · have absent : name ∉ baseFields := by simp [baseFields, isRequest, isChain]
        rw [if_neg Bool.false_ne_true, Table.ofList, Table.get?_insertAll_of_not_mem _ absent]
        simp [absent, Table.get?, Table.empty]

theorem call?_eq : object.call? name =
    if object.class_.declares "_request" = false ∧ name ∉ fixedMembers ∧
        object.class_.declares name = false then
      object.class_.methods.find? fun method => method.name = name
    else none := by
  rw [call?, hasRequester_eq, contains_members]
  refine if_congr ?_ rfl rfl
  simp only [fixedMembers, List.mem_cons, Bool.and_eq_true, Bool.not_eq_true', Bool.or_eq_false_iff,
    decide_eq_true_eq, decide_eq_false_iff_not, not_or, ne_eq]
  tauto

end Instance

/-- The method that makes a request when it is called on the entry object, which has no members but
those of the base class. -/
def EntryClass.call? (class_ : EntryClass) (name : String) : Option Method :=
  if name ∈ fixedMembers then none else class_.methods.find? fun method => method.name = name

/-- The chain that a method hands on, from the chain of its object and the values of the properties.
Without keys a new chain begins. -/
def Method.handOn (method : Method) (chain : Table (Option Datum))
    (value? : String → Option Datum) : Table (Option Datum) :=
  match method.chainKeys? with
  | none => ∅
  | some keys => chain.insertAll (keys.map fun key => (key.text, value? key.field))

/-! ## Classes -/

/-- The classes of a generated SDK. -/
structure Classes where
  models : List ModelClass
  operations : List OperationClass
  entry : EntryClass

namespace Classes

/-- The class of a node's result. -/
def resultClass? (classes : Classes) (node : Node) : Option ModelClass :=
  node.model?.bind fun model => classes.models.find? fun class_ => class_.name = model.name

/-- Whether the object of a node's result has a property of some name. -/
def declares (classes : Classes) (node : Node) (name : String) : Bool :=
  (classes.resultClass? node).any fun class_ => class_.declares name

/-- The object that is made of the response to the operation of a node, when the methods of the
nodes above it, nearest first, are called before, from the entry class on. The response to every
operation has its data. -/
def object? (classes : Classes) (spread : Datum → Table (Option Datum))
    (data : Node → String → Datum) : List Node → Node → Option (Instance Datum)
  | [], root => do
    let method ← classes.entry.call? root.method
    let class_ ← classes.resultClass? root
    return ⟨class_, data root, method.handOn ∅ fun _ => none⟩
  | parent :: further, node => do
    let caller ← classes.object? spread data further parent
    let method ← caller.call? node.method
    let class_ ← classes.resultClass? node
    return ⟨class_, data node, method.handOn (caller.carried spread) caller.value?⟩

/-- The calls down to a node run its method and those of the nodes above it, and every object on the
way still has the requester. -/
structure Connects (classes : Classes) (above : List Node) (node : Node) : Prop where
  reached : ∀ called ∈ node :: above, called.method ∉ fixedMembers
  requests : ∀ caller ∈ above, classes.declares caller "_request" = false

/-- What is read under a key when an ancestor has put a value on the chain and some objects, the
last first, have handed it on. Of the objects with a property `_chain` the last one counts: what is
read is an entry of that property. -/
def arrival? (classes : Classes) (spread : Datum → Table (Option Datum))
    (data : Node → String → Datum) (between : List Node) (key : String) (put : Datum) :
    Option Datum :=
  match between.find? fun node => classes.declares node "_chain" with
  | none => some put
  | some node => ((spread (data node "_chain")).get? key).join

theorem connects_root {classes : Classes} {root : Node} :
    classes.Connects [] root ↔ root.method ∉ fixedMembers :=
  ⟨fun connects => connects.reached root List.mem_cons_self, fun free =>
    ⟨fun _ member => List.mem_singleton.mp member ▸ free, fun _ impossible => nomatch impossible⟩⟩

theorem connects_cons {classes : Classes} {parent node : Node} {above : List Node} :
    classes.Connects (parent :: above) node ↔ classes.Connects above parent ∧
      node.method ∉ fixedMembers ∧ classes.declares parent "_request" = false := by
  constructor
  · rintro ⟨reached, requests⟩
    obtain ⟨free, higher⟩ := List.forall_mem_cons.mp reached
    obtain ⟨here, further⟩ := List.forall_mem_cons.mp requests
    exact ⟨⟨higher, further⟩, free, here⟩
  · rintro ⟨⟨higher, further⟩, free, here⟩
    exact ⟨List.forall_mem_cons.mpr ⟨free, higher⟩, List.forall_mem_cons.mpr ⟨here, further⟩⟩

variable (classes : Classes) (spread : Datum → Table (Option Datum)) (data : Node → String → Datum)
  (between : List Node) (key : String) (put : Datum)

theorem arrival?_nil : classes.arrival? spread data [] key put = some put := rfl

theorem arrival?_cons (node : Node) : classes.arrival? spread data (node :: between) key put =
    if classes.declares node "_chain" then ((spread (data node "_chain")).get? key).join
    else classes.arrival? spread data between key put := by
  rw [arrival?, List.find?_cons]
  cases classes.declares node "_chain" <;> rfl

/-- Where no object on the way has a property `_chain`, the value arrives. -/
theorem arrival?_of_kept (kept : ∀ node ∈ between, classes.declares node "_chain" = false) :
    classes.arrival? spread data between key put = some put := by
  have none_ : (between.find? fun node => classes.declares node "_chain") = none :=
    List.find?_eq_none.mpr fun node member => by simp [kept node member]
  rw [arrival?, none_]

/-- What an SDK consists of when these classes are written down without templates. -/
def output (classes : Classes) (config : Config) : Output :=
  let requester := Requester.ofConfig config
  { opening := Sdk.opening requester
    content := Sdk.content config requester (Sdk.modelsText requester classes.models)
      (Sdk.operationsText requester classes.operations classes.entry) }

/-- What an SDK consists of when templates stand in for some of its sections. -/
def outputWith (classes : Classes) (templates : Templates) (config : Config) : Output :=
  let requester := Requester.ofConfig config
  { opening := Sdk.opening requester
    content := Sdk.content config requester
      (templates.models?.getD (Sdk.modelsText requester classes.models))
      (templates.operations?.getD
        (Sdk.operationsText requester classes.operations classes.entry)) }

end Classes

theorem Sdk.ResultClass.resultClass?_eq {context : Context} {classes : Classes} {node : Node}
    {model : Model} {found : ModelClass}
    (resultClass : ResultClass context classes.models node model found)
    (isModel : node.model? = some model) : classes.resultClass? node = some found := by
  rw [Classes.resultClass?, isModel]
  exact resultClass.found_eq

namespace Sdk

/-- The classes of a forest. -/
def classes (context : Context) (models : List Model) (forest : Forest) :
    Except Error Classes := do
  return ⟨← modelClasses context models forest, ← operationClasses context forest,
    ← entryClass context forest⟩

theorem classes_eq_ok {context : Context} {models : List Model} {forest : Forest}
    {printed : Classes} (built : classes context models forest = .ok printed) :
    modelClasses context models forest = .ok printed.models ∧
      operationClasses context forest = .ok printed.operations ∧
      entryClass context forest = .ok printed.entry := by
  obtain ⟨modelClasses, isModels, further⟩ := Outcome.bind_eq_ok_iff.mp built
  obtain ⟨operations, isOperations, last⟩ := Outcome.bind_eq_ok_iff.mp further
  obtain ⟨entry, isEntry, same⟩ := Outcome.bind_eq_ok_iff.mp last
  cases same
  exact ⟨isModels, isOperations, isEntry⟩

/-- What is written down of a blueprint are the classes of its forest. -/
theorem print_eq_ok {context : Context} {models : List Model} {forest : Forest}
    {templates : Templates} {output : Output}
    (printed : (print ⟨context, models, forest⟩ templates).outcome = .ok output) :
    ∃ built, classes context models forest = .ok built ∧
      output = built.outputWith templates context.config := by
  cases isModels : modelClasses context models forest with
  | error error =>
    rw [print, isModels] at printed
    cases printed
  | ok modelClasses =>
    cases isOperations : operationClasses context forest with
    | error error =>
      rw [print, isModels, isOperations] at printed
      cases printed
    | ok operations =>
      cases isEntry : entryClass context forest with
      | error error =>
        rw [print, isModels, isOperations, isEntry] at printed
        cases printed
      | ok entry =>
        rw [print, isModels, isOperations, isEntry] at printed
        refine ⟨⟨modelClasses, operations, entry⟩, ?_, ?_⟩
        · rw [classes, isModels, isOperations, isEntry]
          rfl
        · cases printed
          rfl

end Sdk

end ChainedSdk
