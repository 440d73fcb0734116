import ChainedSdk.Proofs.Coverage
/-!
# Documents of operations

An operation class sends a typed document, and has a type for the response and one for the
variables. The two types are named after the operation with its kind, as the root models are, so no
two operations share one of them. The document is named after the operation alone: two operations of
different kinds whose names differ only in how their words are written share it.
-/

namespace ChainedSdk

variable {context : Context} {forest : Forest}

/-! ## Names of types and documents -/

theorem documentsMember_inj {first second : String} :
    documentsMember first = documentsMember second ↔ first = second := by
  simp [documentsMember, ← String.toList_inj]

namespace Names

theorem document_eq_iff {first second : String} :
    document first = document second ↔ Text.pascalCase first = Text.pascalCase second := by
  simp [document, ← String.toList_inj]

theorem variablesType_eq_iff {first second : String} {kind other : OperationKind} :
    variablesType first kind = variablesType second other ↔
      operationModel first kind = operationModel second other := by
  simp [variablesType, ← String.toList_inj]

end Names

namespace Sdk

/-- What the class of an operation refers to in the module of typed documents. -/
structure Refers (operation : Operation) (class_ : OperationClass) : Prop where
  document_eq : class_.document = documentsMember (Names.document operation.name)
  responseType_eq : class_.responseType = documentsMember (operationClassName operation)
  variablesType_eq : class_.variablesType = variablesType operation

theorem refers_of_operationClass {node : Node} {class_ : OperationClass}
    (printed : operationClass context node = .ok class_) : Refers node.operation class_ := by
  obtain ⟨_, _, onward⟩ := Outcome.bind_eq_ok_iff.mp printed
  obtain ⟨_, _, same⟩ := Outcome.bind_eq_ok_iff.mp onward
  rw [← Except.ok.inj same]
  exact ⟨rfl, rfl, rfl⟩

/-- Two operations with their classes share neither of the two types, and the document exactly where
they are of different kinds and their names are one in Pascal case. -/
structure ToldApart (first second : Operation × OperationClass) : Prop where
  responseType_ne : first.2.responseType ≠ second.2.responseType
  variablesType_ne : first.2.variablesType ≠ second.2.variablesType
  document_eq_iff : first.2.document = second.2.document ↔
    first.1.kind ≠ second.1.kind ∧
      Text.pascalCase first.1.name = Text.pascalCase second.1.name

/-- Operations whose root models have different names are told apart. -/
theorem Refers.toldApart {first second : Operation} {class_ other : OperationClass}
    (refers : Refers first class_) (refersOther : Refers second other)
    (differ : Names.operationModel first.name first.kind ≠
      Names.operationModel second.name second.kind) :
    ToldApart (first, class_) (second, other) where
  responseType_ne := by
    rw [refers.responseType_eq, refersOther.responseType_eq, Ne, documentsMember_inj]
    exact differ
  variablesType_ne := by
    rw [refers.variablesType_eq, refersOther.variablesType_eq, variablesType, variablesType, Ne,
      documentsMember_inj, Names.variablesType_eq_iff]
    exact differ
  document_eq_iff := by
    rw [refers.document_eq, refersOther.document_eq, documentsMember_inj, Names.document_eq_iff]
    refine ⟨fun samePascal => ⟨fun sameKind => differ ?_, samePascal⟩, And.right⟩
    rw [Names.operationModel, Names.operationModel, samePascal, sameKind]

end Sdk

/-! ## Whole SDKs -/

/-- The documents of the classes are as many as the names of the operations in Pascal case. -/
theorem Forest.nodup_documents_iff {definitions : List OperationDefinition}
    {classes : List OperationClass}
    (refer : List.Forall₂ Sdk.Refers (forest.walk.map (·.operation)) classes)
    (placed : (forest.walk.map fun node => (some node.operation.name, node.operation.kind)).Perm
      (definitions.map fun definition => (definition.name?, definition.kind))) :
    (classes.map (·.document)).Nodup ↔
      (definitions.map fun definition => definition.name?.map Text.pascalCase).Nodup := by
  have sent := Outcome.map_eq_of_forall₂ refer fun _ _ refers => refers.document_eq.symm
  have words : (forest.walk.map fun node => some (Text.pascalCase node.operation.name)).Perm
      (definitions.map fun definition => definition.name?.map Text.pascalCase) := by
    simpa only [List.map_map, Function.comp_def, Option.map_some] using
      placed.map fun entry => entry.1.map Text.pascalCase
  rw [← words.nodup_iff, ← sent]
  simp only [List.Nodup, List.pairwise_map, ne_eq, documentsMember_inj, Names.document_eq_iff,
    Option.some.injEq]

namespace Sdk

/-- In a generated SDK every operation of the documents has a class, and no two operations have a
response type or a variables type in common. Two of them have a document in common exactly where
they are of different kinds and their names are one in Pascal case; so all documents are distinct
exactly where no two operations, of whatever kinds, have one name in Pascal case. -/
theorem generate_tells_apart {schema : SchemaSource} {documents : List DocumentSource}
    {config : ConfigSource} {templates : Except Error Templates} {output : Output}
    (generated : (generate schema documents config templates).outcome = .ok output) :
    ∃ chosen files context models forest classes, templates = .ok chosen ∧
      Generates schema documents config chosen output files context models forest classes ∧
      (forest.walk.map fun node => (some node.operation.name, node.operation.kind)).Perm
        ((operationsOf files).map fun definition => (definition.name?, definition.kind)) ∧
      List.Forall₂ Refers (forest.walk.map (·.operation)) classes.operations ∧
      ((forest.walk.map (·.operation)).zip classes.operations).Pairwise ToldApart ∧
      ((classes.operations.map (·.document)).Nodup ↔
        ((operationsOf files).map fun definition =>
          definition.name?.map Text.pascalCase).Nodup) := by
  obtain ⟨chosen, files, context, models, forest, classes, isChosen, generates⟩ :=
    generates_of_generate generated
  obtain ⟨_, _, _, _, built⟩ := generates.built
  obtain ⟨_, _, reads, _, whole⟩ :=
    Forest.reads_of_resolve built generates.extracted generates.resolved
  obtain ⟨_, printed, _⟩ := classes_eq_ok generates.printed
  have placed := whole.arranges.definitions_perm reads
  have refer : List.Forall₂ Refers (forest.walk.map (·.operation)) classes.operations := by
    rw [List.forall₂_map_left_iff]
    exact (Outcome.mapM_eq_ok_iff.mp printed).imp fun _ _ => refers_of_operationClass
  refine ⟨chosen, files, context, models, forest, classes, isChosen, generates, placed, refer, ?_,
    Forest.nodup_documents_iff refer placed⟩
  have distinct : (forest.walk.map (·.operation)).Pairwise fun first second =>
      Names.operationModel first.name first.kind ≠ Names.operationModel second.name second.kind :=
    List.pairwise_map.mpr whole.distinctRoots_walk
  refine Outcome.pairwise_of_forall₂ (Outcome.forall₂_zip refer) distinct ?_
  rintro _ _ ⟨first, class_⟩ ⟨second, other⟩ ⟨rfl, refers⟩ ⟨rfl, refersOther⟩ differ
  exact refers.toldApart refersOther differ

/-- A type with one field, which is the note. -/
private def noteRoot (name : String) : Definition :=
  .type ⟨none, name, [], .object [] [⟨none, "note", [], .named "String", []⟩]⟩

private def noteSchema : Document := ⟨[noteRoot "Query", noteRoot "Mutation"]⟩

private def noteOperation (kind : OperationKind) (name : String) : Definition :=
  .operation ⟨none, kind, some name, [], [], [.field ⟨none, "note", [], []⟩ none]⟩

/-- The query `note` and the mutation `Note`. -/
private def noteFile : DocumentFile :=
  ⟨⟨[noteOperation .query "note", noteOperation .mutation "Note"]⟩, none⟩

private theorem exists_noteStages : ∃ context models forest classes,
    stages noteSchema [noteFile] {} = .ok (context, models, forest, classes) ∧
    classes.operations.map (·.name) = ["NoteQuery", "NoteMutation"] ∧
    classes.operations.map (·.document) = ["D.NoteDocument", "D.NoteDocument"] := by
  have seen : (stages noteSchema [noteFile] {}).map (fun staged =>
      (staged.2.2.2.operations.map (·.name), staged.2.2.2.operations.map (·.document))) =
        .ok (["NoteQuery", "NoteMutation"], ["D.NoteDocument", "D.NoteDocument"]) := by
    set_option maxRecDepth 4000 in cbv
  obtain ⟨⟨context, models, forest, classes⟩, ran, isSeen⟩ := Outcome.map_eq_ok_iff.mp seen
  exact ⟨context, models, forest, classes, ran, Prod.mk.inj isSeen⟩

/-- The classes of a query and a mutation that differ only in a capital are told apart, but not by
their documents. -/
theorem generate_tells_apart_note : ∃ output chosen files context models forest classes,
    (generate (.parsed noteSchema) [.parsed noteFile] (.loaded {}) (.ok {})).outcome = .ok output ∧
    Generates (.parsed noteSchema) [.parsed noteFile] (.loaded {}) chosen output files context models
      forest classes ∧
    List.Forall₂ Refers (forest.walk.map (·.operation)) classes.operations ∧
    ((forest.walk.map (·.operation)).zip classes.operations).Pairwise ToldApart ∧
    classes.operations.map (·.name) = ["NoteQuery", "NoteMutation"] ∧
    ¬((operationsOf files).map fun definition => definition.name?.map Text.pascalCase).Nodup := by
  obtain ⟨context, models, forest, classes, ran, names, sent⟩ := exists_noteStages
  have generated := generate_of_stages ran
  obtain ⟨chosen, files, other, found, grown, printed, _, generates, _, refer, apart, documents⟩ :=
    generate_tells_apart generated
  obtain ⟨rfl, again⟩ := generates.stages_eq
  cases ran.symm.trans again
  refine ⟨_, chosen, _, context, models, forest, classes, generated, generates, refer, apart, names,
    ?_⟩
  rw [← documents, sent]
  simp

/-- The query `note` and the mutation `Note` are generated, and their classes send one document. -/
theorem exists_shared_document : ∃ output chosen files context models forest classes,
    (generate (.parsed noteSchema) [.parsed noteFile] (.loaded {}) (.ok {})).outcome = .ok output ∧
    Generates (.parsed noteSchema) [.parsed noteFile] (.loaded {}) chosen output files context models
      forest classes ∧
    ∃ first second, [first, second].Sublist classes.operations ∧ first.name ≠ second.name ∧
      first.document = second.document := by
  obtain ⟨context, models, forest, classes, ran, names, sent⟩ := exists_noteStages
  obtain ⟨output, chosen, generated, generates⟩ := exists_generates_of_stages ran
  refine ⟨output, chosen, _, context, models, forest, classes, generated, generates, ?_⟩
  obtain ⟨first, rest, two, firstName, isRest⟩ := List.map_eq_cons_iff.mp names
  obtain ⟨second, others, isTwo, secondName, _⟩ := List.map_eq_cons_iff.mp isRest
  rw [two, isTwo, List.map_cons, List.map_cons, List.cons.injEq, List.cons.injEq] at sent
  refine ⟨first, second, ?_, ?_, sent.1.trans sent.2.1.symm⟩
  · rw [two, isTwo]
    exact ((List.nil_sublist others).cons_cons second).cons_cons first
  · rw [firstName, secondName]
    decide

end Sdk

end ChainedSdk
