import ChainedSdk.Proofs.Resolution
import ChainedSdk.Sdk.Text
/-!
# Result models

The result model of an operation lies directly under the model of its root selection, and distinct
operations have distinct root models. So no two operations share a result model, and the keys under
which the values of two result models travel are distinct even as texts.
-/

namespace ChainedSdk

open Names

/-! ## Distinct roots -/

/-- No two operations have a root model in common. -/
def DistinctRoots (operations : List Operation) : Prop :=
  operations.Pairwise fun first second =>
    operationModel first.name first.kind ≠ operationModel second.name second.kind

theorem operationsOf_eq (documents : List DocumentFile) :
    operationsOf documents = (Context.definitionsOf documents).filterMap fun
      | .operation definition => some definition
      | _ => none := by
  rw [operationsOf, Context.definitionsOf, List.filterMap_flatMap]
  rfl

theorem Context.MakesAll.distinctRoots {context : Context} {documents : List DocumentFile}
    {models after : Table Model} {operations : List Operation}
    (makes : context.MakesAll (definitionsOf documents) ∅ after)
    (reads : List.Forall₂ (fun definition operation =>
      operation.Reads context models definition) (operationsOf documents) operations) :
    DistinctRoots operations := by
  have named {definition : OperationDefinition} {name : String}
      (member : .operation definition ∈ definitionsOf documents)
      (isName : definition.name? = some name) : ∃ site,
        context.siteOf (.operation definition) = .ok (some site) ∧
          site.name = operationModel name definition.kind := by
    rcases makes.makes_of_mem member with nothing | ⟨site, _, _, found, _⟩
    · obtain ⟨_, _, impossible⟩ := Outcome.map_eq_ok_iff.mp nothing
      cases impossible
    · refine ⟨site, found, ?_⟩
      rcases siteOf_eq_some found with ⟨_, other, _, same, isOther, _, rfl⟩ | ⟨_, _, impossible, _⟩
      · cases same
        rw [isName] at isOther
        cases isOther
        rfl
      · cases impossible
  have apart : (operationsOf documents).Pairwise fun first second => ∀ name other,
      first.name? = some name → second.name? = some other →
        operationModel name first.kind ≠ operationModel other second.kind := by
    rw [operationsOf_eq]
    refine List.Pairwise.filterMap _ ?_ (List.Pairwise.and_mem.mp makes.distinct_sites)
    rintro first second ⟨memberFirst, memberSecond, differ⟩ firstOperation isFirst
      secondOperation isSecond name other isName isOther
    split at isFirst
    · cases isFirst
      split at isSecond
      · cases isSecond
        obtain ⟨site, found, sameName⟩ := named memberFirst isName
        obtain ⟨otherSite, foundOther, sameOther⟩ := named memberSecond isOther
        rw [← sameName, ← sameOther]
        exact differ site otherSite found foundOther
      · cases isSecond
    · cases isFirst
  refine Outcome.pairwise_of_forall₂ reads apart ?_
  intro first second firstOperation secondOperation readsFirst readsSecond differ
  rw [← readsFirst.kind_eq, ← readsSecond.kind_eq]
  exact differ _ _ readsFirst.name_eq readsSecond.name_eq

/-! ## Results of distinct operations -/

variable {context : Context} {models : Table Model}

/-- The result model of an operation lies under its root model and is no root selection. -/
theorem Operation.Reads.result_spec {operation : Operation} {definition : OperationDefinition}
    (reads : operation.Reads context models definition) (coherent : context.Coherent models)
    {model : Model} (found : operation.resultModel? models = some model) :
    (∃ key, model.name = nestedModel (operationModel operation.name operation.kind) key) ∧
      model.isRoot = false := by
  obtain ⟨name, isModel, present⟩ := resultModel?_eq_some found
  obtain ⟨root, field, isRoot, isField, _, _, same⟩ := reads.result
  obtain ⟨isNested, inner, presentInner, deeper⟩ :=
    (coherent.fits _ _ isRoot).nested field isField name (same.symm.trans isModel)
  rw [present] at presentInner
  cases presentInner
  refine ⟨⟨field.name, ?_⟩, ?_⟩
  · rw [coherent.own _ _ present, isNested, coherent.own _ _ isRoot]
  · rw [Model.isRoot, deeper]
    simp

private theorem toList_text (model field : String) : (ChainKey.text ⟨model, field⟩).toList =
    '"' :: (model.toList ++ '.' :: (field.toList ++ ['"'])) := by
  simp [ChainKey.text, String.toList_append, List.append_assoc]

/-- Keys of models under distinct plain roots have distinct texts. -/
theorem ChainKey.text_ne {root otherRoot key otherKey field otherField : String}
    (plain : '_' ∉ root.toList) (plainOther : '_' ∉ otherRoot.toList) (differ : root ≠ otherRoot) :
    ChainKey.text ⟨nestedModel root key, field⟩ ≠
      ChainKey.text ⟨nestedModel otherRoot otherKey, otherField⟩ := by
  intro same
  have letters := congrArg String.toList same
  rw [toList_text, toList_text, toList_nestedModel, toList_nestedModel] at letters
  have tails := List.tail_eq_of_cons_eq letters
  rw [List.append_assoc, List.append_assoc, List.cons_append, List.cons_append] at tails
  exact differ (String.toList_inj.mp
    (eq_of_append_tail plain plainOther (isTail_underscore _) (isTail_underscore _) tails).1)

theorem ChainKey.field_eq_of_text {model field other : String}
    (same : ChainKey.text ⟨model, field⟩ = ChainKey.text ⟨model, other⟩) : field = other := by
  have letters := congrArg String.toList same
  rw [toList_text, toList_text] at letters
  have tails := List.append_cancel_left (List.tail_eq_of_cons_eq letters)
  exact String.toList_inj.mp (List.append_cancel_right (List.tail_eq_of_cons_eq tails))

/-! ## Resolved forests -/

/-- What a forest is that was resolved over the models of the same documents. -/
structure Forest.Resolved (context : Context) (models : List Model) (parents : Parents)
    (operations : List Operation) (forest : Forest) : Prop where
  coherent : context.Coherent (modelTable models)
  enclosed : Enclosed [] models
  distinctModels : (models.map (·.name)).Nodup
  distinctRoots : DistinctRoots operations
  read : ∀ operation ∈ operations, ∃ definition,
    operation.Reads context (modelTable models) definition
  grown : Grown context.config (modelTable models) parents operations forest
  arranges : forest.Arranges operations

/-- A forest that is resolved over extracted models holds the operations that the documents'
operations are read as. -/
theorem Forest.reads_of_resolve {schema : Document} {documents : List DocumentFile}
    {config : Config} {found : List Model} {forest : Forest}
    (built : Context.ofDocument schema documents config = .ok context)
    (extracted : context.models documents = .ok found)
    (resolved : (resolve context documents found).outcome = .ok forest) :
    ∃ parents operations,
      List.Forall₂ (fun definition operation =>
        operation.Reads context (modelTable found) definition)
        (operationsOf documents) operations ∧
      (operations.map (·.name)).Nodup ∧
      Resolved context found parents operations forest := by
  obtain ⟨coherent, enclosed, _⟩ := Context.spec_of_models built extracted
  obtain ⟨operations, reads, distinct, grown, arranges⟩ := grown_of_resolve resolved
  obtain ⟨_, _, _, _, distinctModels⟩ := Context.lists_of_models extracted
  obtain ⟨made, makes, rfl⟩ := Context.makesAll_of_models extracted
  refine ⟨_, operations, reads, distinct, coherent, enclosed, distinctModels,
    makes.distinctRoots reads, ?_, grown, arranges⟩
  intro operation member
  obtain ⟨definition, _, isRead⟩ := Outcome.exists_of_forall₂ reads member
  exact ⟨definition, isRead⟩

theorem Forest.resolved_of_resolve {schema : Document} {documents : List DocumentFile}
    {config : Config} {found : List Model} {forest : Forest}
    (built : Context.ofDocument schema documents config = .ok context)
    (extracted : context.models documents = .ok found)
    (resolved : (resolve context documents found).outcome = .ok forest) :
    ∃ parents operations, Resolved context found parents operations forest := by
  obtain ⟨parents, operations, _, _, whole⟩ := reads_of_resolve built extracted resolved
  exact ⟨parents, operations, whole⟩

end ChainedSdk
