import ChainedSdk.Proofs.Generation
import Mathlib
/-!
# Names inside generated functions

A generated function takes one parameter for every variable that the caller has to give, under the
variable's name, and one more for all variables that may be left out. In the body of `fetch` two
constants stand beside them. So names clash exactly where a variable has one of these three names:
that of a constant, or that of the last parameter where there is one.
-/

namespace ChainedSdk

/-- The constants that the body of `fetch` declares. -/
def fetchConstants : List String := ["response", "data"]

/-- The declaration of a constant in the body of a function. -/
def constantText (name value : String) : String := "    const " ++ name ++ " = " ++ value ++ ";\n"

namespace OperationClass

/-- The names that `fetch` binds. -/
def locals (class_ : OperationClass) : List String :=
  class_.parameters.map (·.name) ++ fetchConstants

/-- The body of `fetch` declares its constants one after the other, and returns. -/
theorem fetchText_eq (class_ : OperationClass) : ∃ request,
    class_.fetchText = braced "  "
      ("public async fetch(" ++ parameterList class_.parameters ++ "): Promise<" ++
        class_.returnType ++ ">")
      (String.join (fetchConstants.zipWith constantText [request, "response." ++ class_.resultKey])
        ++ "    return " ++ class_.result ++ ";\n") := by
  refine ⟨"await this._request<" ++ class_.responseType ++ ", " ++ class_.variablesType ++ ">(" ++
    class_.document ++ ", \x7b\n" ++
    String.join (class_.sent.map fun name => "      " ++ name ++ ",\n") ++ "    \x7d)", ?_⟩
  -- Literals that run over a border of the declarations are cut there.
  have first : "    const response = await this._request<" =
      "    const " ++ "response" ++ " = " ++ "await this._request<" := by decide
  have second : "    \x7d);\n    const data = response." =
      "    \x7d)" ++ ";\n" ++ "    const " ++ "data" ++ " = " ++ "response." := by decide
  have last : ";\n    return " = ";\n" ++ "    return " := by decide
  rw [fetchText, first, second, last]
  simp only [fetchConstants, List.zipWith_cons_cons, List.zipWith_nil_left, String.join_cons,
    String.join_nil, constantText, String.append_assoc, String.append_empty]

end OperationClass

/-- The names that the parameters of a method bind. -/
def Method.locals (method : Method) : List String := method.parameters.map (·.name)

/-- No local name of a generated function is bound twice. -/
structure Classes.LocalsApart (classes : Classes) : Prop where
  fetch : ∀ class_ ∈ classes.operations, class_.locals.Nodup
  chained : ∀ class_ ∈ classes.models, ∀ method ∈ class_.methods, method.locals.Nodup
  entry : ∀ method ∈ classes.entry.methods, method.locals.Nodup

namespace Operation

/-- No variable has the name of the parameter for those that may be left out, if there are any. -/
def LeavesOptional (operation : Operation) (inputs : List Variable) : Prop :=
  operation.optional ≠ [] → ∀ input ∈ inputs, input.name ≠ optionalVariables

/-- No variable that a caller has to give has a name that `fetch` binds otherwise. -/
structure LeavesLocals (operation : Operation) : Prop where
  constants : ∀ input ∈ operation.required, input.name ∉ fetchConstants
  optional : operation.LeavesOptional operation.required

variable {operation : Operation} {inputs : List Variable}

theorem LeavesOptional.subset {fewer : List Variable} (subset : fewer ⊆ inputs)
    (leaves : operation.LeavesOptional inputs) : operation.LeavesOptional fewer :=
  fun some_ input member => leaves some_ input (subset member)

end Operation

namespace Sdk

variable {context : Context} {operation : Operation} {inputs : List Variable}
  {parameters : List Parameter} {node : Node}

theorem names_optionalParameters (operation : Operation) :
    (optionalParameters operation).map (·.name) =
      if operation.optional = [] then [] else [optionalVariables] := by
  by_cases none_ : operation.optional = []
  · simp [optionalParameters, none_]
  · simp [optionalParameters, none_]

theorem names_requiredParameters
    (taken : List.Forall₂ (fun input parameter => requiredParameter context input = .ok parameter)
      inputs parameters) : parameters.map (·.name) = inputs.map (·.name) :=
  (Outcome.map_eq_of_forall₂ taken fun _ _ found => (requiredParameter_eq_ok found).symm).symm

/-- Parameters for distinct variables clash only with the one for the optional variables. -/
theorem nodup_parameters_iff (distinct : (inputs.map (·.name)).Nodup) :
    (inputs.map (·.name) ++ (optionalParameters operation).map (·.name)).Nodup ↔
      operation.LeavesOptional inputs := by
  rw [names_optionalParameters, Operation.LeavesOptional]
  by_cases none_ : operation.optional = []
  · simp [none_, distinct]
  · rw [if_neg none_, List.nodup_append]
    constructor
    · rintro ⟨_, _, apart⟩ _ input member
      exact apart _ (List.mem_map_of_mem member) _ (List.mem_singleton_self _)
    · intro leaves
      refine ⟨distinct, List.nodup_singleton _, ?_⟩
      rintro _ isInput _ isLast
      obtain ⟨input, member, rfl⟩ := List.mem_map.mp isInput
      rw [List.mem_singleton.mp isLast]
      exact leaves none_ input member

theorem nodup_chainLocals_iff {parent : Model} {method : Method}
    (printed : chainMethod context parent node = .ok method)
    (distinct : (node.arguments.map (·.name)).Nodup) :
    method.locals.Nodup ↔
      node.operation.LeavesOptional (node.arguments.filter Variable.isRequired) := by
  obtain ⟨parameters, taken, same⟩ := (chainMethod_eq_ok printed).parameters
  rw [Method.locals, same, List.map_append, names_requiredParameters taken]
  exact nodup_parameters_iff (distinct.sublist (List.filter_sublist.map _))

theorem nodup_entryLocals_iff {method : Method} (printed : entryMethod context node = .ok method)
    (distinct : (node.operation.inputs.map (·.name)).Nodup) :
    method.locals.Nodup ↔ node.operation.LeavesOptional node.operation.required := by
  obtain ⟨parameters, taken, same⟩ := Outcome.bind_eq_ok_iff.mp printed
  obtain ⟨required, every, joined⟩ := Outcome.bind_eq_ok_iff.mp taken
  have bound : method.locals = (required ++ optionalParameters node.operation).map (·.name) := by
    rw [← Except.ok.inj same, ← Except.ok.inj joined]
    rfl
  rw [bound, List.map_append, names_requiredParameters (Outcome.mapM_eq_ok_iff.mp every)]
  exact nodup_parameters_iff (distinct.sublist (List.filter_sublist.map _))

theorem nodup_fetchLocals_iff {class_ : OperationClass}
    (printed : operationClass context node = .ok class_)
    (distinct : (node.operation.inputs.map (·.name)).Nodup) :
    class_.locals.Nodup ↔ node.operation.LeavesLocals := by
  obtain ⟨_, required, taken, same⟩ := operationClass_eq_ok printed
  have own : (node.operation.required.map (·.name)).Nodup :=
    distinct.sublist (List.filter_sublist.map _)
  have lastFree : ∀ name ∈ (optionalParameters node.operation).map (·.name),
      name ∉ fetchConstants := by
    rw [names_optionalParameters]
    split
    · exact fun _ impossible => nomatch impossible
    · simp [optionalVariables, fetchConstants]
  rw [OperationClass.locals, same, List.map_append, names_requiredParameters taken,
    List.nodup_append, nodup_parameters_iff own]
  constructor
  · rintro ⟨optional, _, apart⟩
    refine ⟨fun input member isConstant => ?_, optional⟩
    exact apart _ (List.mem_append_left _ (List.mem_map_of_mem member)) _ isConstant rfl
  · rintro ⟨constants, optional⟩
    refine ⟨optional, by decide, ?_⟩
    rintro name isParameter _ isConstant rfl
    rcases List.mem_append.mp isParameter with isRequired | isLast
    · obtain ⟨input, member, rfl⟩ := List.mem_map.mp isRequired
      exact constants input member isConstant
    · exact lastFree name isLast isConstant

end Sdk

/-! ## Whole SDKs -/

/-- When the local names of generated functions are distinct, function by function: of every
operation class, of every method of the entry class, and of every method of a model class, which is
that of a child of a node with the class as its result. -/
structure Classes.NamesLocals (classes : Classes) (forest : Forest) : Prop where
  fetch : List.Forall₂ (fun node class_ =>
    class_.name = Sdk.operationClassName node.operation ∧
      (class_.locals.Nodup ↔ node.operation.LeavesLocals)) forest.walk classes.operations
  entry : List.Forall₂ (fun root method =>
    method.name = root.method ∧
      (method.locals.Nodup ↔ root.operation.LeavesOptional root.operation.required))
    (forest.flatMap fun entry => entry.2) classes.entry.methods
  chained : ∀ class_ ∈ classes.models, class_.methods = [] ∨ ∃ parent ∈ forest.walk, ∃ model,
    parent.model? = some model ∧ class_.name = model.name ∧
    List.Forall₂ (fun child method =>
      method.name = child.method ∧
        (method.locals.Nodup ↔
          child.operation.LeavesOptional (child.arguments.filter Variable.isRequired)))
      parent.children class_.methods

namespace Forest.Resolved

variable {context : Context} {models : List Model} {parents : Parents}
  {operations : List Operation} {forest : Forest} {classes : Classes}
  (resolved : Resolved context models parents operations forest)

include resolved

theorem arguments_subset {node : Node} (member : node ∈ forest.walk) :
    node.arguments.Sublist node.operation.inputs := by
  obtain ⟨_, settled⟩ := resolved.grown.exists_settled member
  rw [settled.arguments_eq]
  exact List.filter_sublist

theorem namesLocals (printed : Sdk.classes context models forest = .ok classes)
    (distinct : ∀ node ∈ forest.walk, (node.operation.inputs.map (·.name)).Nodup) :
    classes.NamesLocals forest := by
  obtain ⟨printedModels, printedOperations, printedEntry⟩ := Sdk.classes_eq_ok printed
  refine ⟨?_, ?_, fun class_ member => ?_⟩
  · refine ((List.forall₂_and_left _ _).mpr
      ⟨distinct, Outcome.mapM_eq_ok_iff.mp printedOperations⟩).imp ?_
    rintro node class_ ⟨own, isClass⟩
    exact ⟨(Sdk.operationClass_eq_ok isClass).1, Sdk.nodup_fetchLocals_iff isClass own⟩
  · have atRoot := fun root isRoot => distinct root ((roots_sublist_walk forest).subset isRoot)
    refine ((List.forall₂_and_left _ _).mpr ⟨atRoot, Sdk.entryClass_eq_ok printedEntry⟩).imp ?_
    rintro root method ⟨own, isMethod⟩
    exact ⟨(Sdk.entryMethod_eq_ok isMethod).1, Sdk.nodup_entryLocals_iff isMethod own⟩
  · refine (Sdk.methods_of_modelClasses printedModels member).imp_right ?_
    rintro ⟨parent, isParent, model, isModel, sameName, every⟩
    refine ⟨parent, isParent, model, isModel, sameName, ?_⟩
    have below : ∀ child ∈ parent.children, (child.arguments.map (·.name)).Nodup := by
      intro child isChild
      have isNode := Forest.mem_walk_of_child isParent isChild
      exact (distinct child isNode).sublist ((resolved.arguments_subset isNode).map _)
    refine ((List.forall₂_and_left _ _).mpr ⟨below, every⟩).imp ?_
    rintro child method ⟨own, isMethod⟩
    exact ⟨(Sdk.chainMethod_eq_ok isMethod).name_eq, Sdk.nodup_chainLocals_iff isMethod own⟩

/-- Where `fetch` binds distinct names, so do the methods that call it. -/
theorem localsApart_iff (names : classes.NamesLocals forest) :
    classes.LocalsApart ↔ ∀ node ∈ forest.walk, node.operation.LeavesLocals := by
  constructor
  · intro apart node member
    obtain ⟨class_, isClass, _, iff⟩ := Outcome.exists_of_forall₂_left names.fetch member
    exact iff.mp (apart.fetch class_ isClass)
  · intro leaves
    refine ⟨fun class_ member => ?_, fun class_ member method isMethod => ?_,
      fun method member => ?_⟩
    · obtain ⟨node, isNode, _, iff⟩ := Outcome.exists_of_forall₂ names.fetch member
      exact iff.mpr (leaves node isNode)
    · rcases names.chained class_ member with none_ | ⟨parent, isParent, _, _, _, every⟩
      · rw [none_] at isMethod
        cases isMethod
      · obtain ⟨child, isChild, _, iff⟩ := Outcome.exists_of_forall₂ every isMethod
        have isNode := Forest.mem_walk_of_child isParent isChild
        have fewer : child.arguments.filter Variable.isRequired ⊆ child.operation.required :=
          ((resolved.arguments_subset isNode).filter _).subset
        exact iff.mpr ((leaves child isNode).optional.subset fewer)
    · obtain ⟨root, isRoot, _, iff⟩ := Outcome.exists_of_forall₂ names.entry member
      exact iff.mpr (leaves root ((roots_sublist_walk forest).subset isRoot)).optional

end Forest.Resolved

namespace Sdk

/-- In an SDK that is generated from operations with distinct variables, no two parameters or
constants of a `fetch` function have one name exactly where no required variable is called like a
constant of its body, or like the parameter for the optional variables where there are any. For a
method only the latter counts, and below the root only for the variables that are still arguments.
So all local names are distinct exactly where they are in all `fetch` functions. -/
theorem generate_locals {schema : SchemaSource} {documents : List DocumentSource}
    {config : ConfigSource} {templates : Except Error Templates} {output : Output}
    (generated : (generate schema documents config templates).outcome = .ok output)
    (distinct : ∀ files, documents.mapM DocumentSource.file = .ok files →
      ∀ definition ∈ operationsOf files, (definition.variableDefinitions.map (·.name)).Nodup) :
    ∃ chosen files context models forest classes, templates = .ok chosen ∧
      Generates schema documents config chosen output files context models forest classes ∧
      classes.NamesLocals forest ∧
      (classes.LocalsApart ↔ ∀ node ∈ forest.walk, node.operation.LeavesLocals) := by
  obtain ⟨chosen, files, context, models, forest, classes, isChosen, generates⟩ :=
    generates_of_generate generated
  obtain ⟨_, _, _, _, built⟩ := generates.built
  obtain ⟨_, _, reads, _, whole⟩ :=
    Forest.reads_of_resolve built generates.extracted generates.resolved
  have inputs : ∀ node ∈ forest.walk, (node.operation.inputs.map (·.name)).Nodup := by
    intro node member
    obtain ⟨definition, isDefinition, isRead⟩ :=
      Outcome.exists_of_forall₂ reads (whole.grown.operation_mem member)
    have named := Outcome.map_eq_of_forall₂ isRead.inputs fun _ _ read =>
      (readVariable_eq_ok read).1.symm
    exact named ▸ distinct files generates.read definition isDefinition
  have names := whole.namesLocals generates.printed inputs
  exact ⟨chosen, files, context, models, forest, classes, isChosen, generates, names,
    whole.localsApart_iff names⟩

/-- Notes that can be read, and saved under the data for them. -/
private def savingSchema : Document :=
  ⟨[.type ⟨none, "Query", [], .object [] [⟨none, "note", [], .named "String", []⟩]⟩,
    .type ⟨none, "Mutation", [], .object [] [⟨none, "save",
      [⟨none, "data", .nonNull (.named "String"), none, []⟩], .named "String", []⟩]⟩]⟩

/-- The mutation that saves a note, with the data as its required variable. -/
private def savingFile : DocumentFile :=
  ⟨⟨[.operation ⟨none, .mutation, some "save",
    [⟨none, "data", .nonNull (.named "String"), none, []⟩], [],
    [.field ⟨none, "save", [⟨"data", .variable "data"⟩], []⟩ none]⟩]⟩, none⟩

private theorem exists_savingStages : ∃ context models forest classes,
    stages savingSchema [savingFile] {} = .ok (context, models, forest, classes) ∧
    classes.operations.map (·.locals) = [["data", "response", "data"]] ∧
    classes.entry.methods.map (·.locals) = [["data"]] := by
  have seen : (stages savingSchema [savingFile] {}).map (fun staged =>
      (staged.2.2.2.operations.map (·.locals), staged.2.2.2.entry.methods.map (·.locals))) =
        .ok ([["data", "response", "data"]], [["data"]]) := by
    set_option maxRecDepth 4000 in cbv
  obtain ⟨⟨context, models, forest, classes⟩, ran, isSeen⟩ := Outcome.map_eq_ok_iff.mp seen
  exact ⟨context, models, forest, classes, ran, Prod.mk.inj isSeen⟩

private theorem distinct_savingVariables (files : List DocumentFile)
    (read : [DocumentSource.parsed savingFile].mapM DocumentSource.file = .ok files) :
    ∀ definition ∈ operationsOf files, (definition.variableDefinitions.map (·.name)).Nodup := by
  cases read.symm.trans (mapM_file_parsed [savingFile])
  intro definition member
  rw [List.mem_singleton.mp member]
  exact List.nodup_singleton "data"

/-- The names in the SDK for a mutation that takes its `data` clash, in its `fetch` alone. -/
theorem generate_locals_save : ∃ output chosen files context models forest classes,
    (generate (.parsed savingSchema) [.parsed savingFile] (.loaded {})
      (.ok {})).outcome = .ok output ∧
    (∀ files, [DocumentSource.parsed savingFile].mapM DocumentSource.file = .ok files →
      ∀ definition ∈ operationsOf files,
        (definition.variableDefinitions.map (·.name)).Nodup) ∧
    Generates (.parsed savingSchema) [.parsed savingFile] (.loaded {}) chosen output files
      context models forest classes ∧
    classes.NamesLocals forest ∧
    (∀ method ∈ classes.entry.methods, method.locals.Nodup) ∧
    ¬∀ node ∈ forest.walk, node.operation.LeavesLocals := by
  obtain ⟨context, models, forest, classes, ran, bound, entry⟩ := exists_savingStages
  have generated := generate_of_stages ran
  have distinct := distinct_savingVariables
  obtain ⟨chosen, files, other, found, grown, printed, _, generates, names, apart⟩ :=
    generate_locals generated distinct
  obtain ⟨rfl, again⟩ := generates.stages_eq
  cases ran.symm.trans again
  refine ⟨_, chosen, _, context, models, forest, classes, generated, distinct, generates, names,
    ?_, fun leaves => ?_⟩
  · intro method member
    have only : method.locals ∈ [["data"]] := entry ▸ List.mem_map_of_mem member
    rw [List.mem_singleton.mp only]
    exact List.nodup_singleton "data"
  · obtain ⟨class_, isClass, binds⟩ := List.mem_map.mp
      (bound ▸ List.mem_singleton_self ["data", "response", "data"])
    have distinctLocals := (apart.mpr leaves).fetch class_ isClass
    rw [binds] at distinctLocals
    exact absurd distinctLocals (by decide)

/-- The mutation that takes its `data` has distinct variables and is generated, and its `fetch`
binds `data` twice. -/
theorem exists_rebound_data : ∃ output chosen files context models forest classes,
    (generate (.parsed savingSchema) [.parsed savingFile] (.loaded {})
      (.ok {})).outcome = .ok output ∧
    Generates (.parsed savingSchema) [.parsed savingFile] (.loaded {}) chosen output files
      context models forest classes ∧
    (∀ definition ∈ operationsOf files, (definition.variableDefinitions.map (·.name)).Nodup) ∧
    ∃ class_ ∈ classes.operations, class_.locals = ["data", "response", "data"] := by
  obtain ⟨context, models, forest, classes, ran, bound, _⟩ := exists_savingStages
  obtain ⟨output, chosen, generated, generates⟩ := exists_generates_of_stages ran
  refine ⟨output, chosen, _, context, models, forest, classes, generated, generates,
    distinct_savingVariables _ generates.read, List.mem_map.mp ?_⟩
  rw [bound]
  exact List.mem_singleton_self _

end Sdk

end ChainedSdk
