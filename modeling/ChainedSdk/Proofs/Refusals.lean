import ChainedSdk.Proofs.Grammar
import ChainedSdk.Proofs.Resolution
import Mathlib
/-!
# What can still go wrong after extraction

Once the context is built and the models are extracted, a run fails for few reasons: an operation
name is repeated, the type of a variable is unknown, an operation selects no data, or siblings
cannot be given method names. Whatever later stages look up is there. One more reason is left to
documents that were not read from texts: the type of a variable with a mark of non-null on another.
-/

namespace ChainedSdk

open Context

/-- Why a run does not go on after the extraction of its models. -/
inductive Refusal (context : Context) (models : Table Model)
    (definitions : List OperationDefinition) : Error → Prop
  | unreadable {error : Error} (unread : Unreadable context models definitions error) :
      Refusal context models definitions error
  | unnamed {parent? : Option String} {reserved : Table String} {siblings : List String}
      {name first second : String}
      (failed : MethodName.assign context.config parent? reserved siblings =
        .error (.methodConflict name first second parent?)) :
      Refusal context models definitions (.methodConflict name first second parent?)

namespace Forest

variable {schema : Document} {documents : List DocumentFile} {config : Config} {context : Context}
  {models : List Model} {operations : List Operation} {forest : Forest}

/-- What an assembled forest over extracted models is: the check finds no fault in it, and it can be
printed. -/
private theorem accepted_of_assemble
    (coherent : context.Coherent (modelTable models)) (enclosed : Enclosed [] models)
    (collected : (collectOperations context (modelTable models) documents).outcome = .ok operations)
    (placed : (assemble context.config (modelTable models)
      (Candidate.ofOperations context.config (modelTable models) operations) operations).outcome =
        .ok forest) :
    forest.check context (modelTable models) = .ok () ∧
      ∃ output, (Sdk.print ⟨context, models, forest⟩ {}).outcome = .ok output := by
  obtain ⟨reads, distinct⟩ := collectOperations_eq_ok collected
  have read : ∀ operation ∈ operations, ∃ definition,
      operation.Reads context (modelTable models) definition := by
    intro operation member
    obtain ⟨definition, _, isRead⟩ := Outcome.exists_of_forall₂ reads member
    exact ⟨definition, isRead⟩
  obtain ⟨grown, arranges⟩ := grown_of_assemble distinct placed
  exact ⟨check_eq_ok_iff.mpr (grown.wellFormed arranges coherent read),
    Sdk.exists_print {} enclosed (grown.printable coherent read)⟩

private theorem exists_print_of_resolve
    (coherent : context.Coherent (modelTable models)) (enclosed : Enclosed [] models)
    (resolved : (resolve context documents models).outcome = .ok forest) :
    ∃ output, (Sdk.print ⟨context, models, forest⟩ {}).outcome = .ok output := by
  rw [outcome_resolve] at resolved
  obtain ⟨operations, collected, onward⟩ := Outcome.bind_eq_ok_iff.mp resolved
  obtain ⟨assembled, placed, checked⟩ := Outcome.bind_eq_ok_iff.mp onward
  obtain ⟨_, _, same⟩ := Outcome.bind_eq_ok_iff.mp checked
  cases same
  exact (accepted_of_assemble coherent enclosed collected placed).2

/-- Why a run does not go on after the extraction of its models, if the documents need not be read
from texts. -/
theorem refusal_or_doubleMark
    (built : Context.ofDocument schema documents config = .ok context)
    (extracted : context.models documents = .ok models) {error : Error}
    (failed : (resolve context documents models >>= fun forest =>
      Sdk.print ⟨context, models, forest⟩ {}).outcome = .error error) :
    Refusal context (modelTable models) (operationsOf documents) error ∨
      error = .doubleNonNull ∧ ∃ definition ∈ operationsOf documents, definition.HasDoubleMark := by
  obtain ⟨coherent, enclosed, modelled⟩ := spec_of_models built extracted
  rw [Reported.outcome_bind] at failed
  rcases Outcome.bind_eq_error_iff.mp failed with unresolved | ⟨forest, resolved, unprinted⟩
  · rw [outcome_resolve] at unresolved
    rcases Outcome.bind_eq_error_iff.mp unresolved with
      uncollected | ⟨operations, collected, onward⟩
    · exact (unreadable_of_collectOperations modelled uncollected).imp_left .unreadable
    · obtain ⟨_, distinct⟩ := collectOperations_eq_ok collected
      rcases assemble_or_unnamed context.config (modelTable models) distinct with
        ⟨parent?, reserved, siblings, failure, unnamed, failedOther⟩ | ⟨forest, placed, _, _⟩
      · rw [failedOther] at onward
        cases onward
        obtain ⟨name, first, second, rfl, _⟩ := MethodName.assign_error unnamed
        exact Or.inl (.unnamed unnamed)
      · rw [placed] at onward
        have checked := (accepted_of_assemble coherent enclosed collected placed).1
        rcases Outcome.bind_eq_error_iff.mp onward with impossible | ⟨_, same, unchecked⟩
        · cases impossible
        · cases same
          rw [checked] at unchecked
          cases unchecked
  · obtain ⟨output, isPrinted⟩ := exists_print_of_resolve coherent enclosed resolved
    rw [isPrinted] at unprinted
    cases unprinted

/-- Over documents that were read from texts a run fails for no other reason than a refusal. -/
theorem refusal_of_ofText
    (built : Context.ofDocument schema documents config = .ok context)
    (extracted : context.models documents = .ok models)
    (parsed : ∀ file ∈ documents, ∃ text, Document.ofText text = .ok file.document)
    {error : Error} (failed : (resolve context documents models >>= fun forest =>
      Sdk.print ⟨context, models, forest⟩ {}).outcome = .error error) :
    Refusal context (modelTable models) (operationsOf documents) error := by
  refine (refusal_or_doubleMark built extracted failed).resolve_right ?_
  rintro ⟨_, definition, member, declared, isVariable, double⟩
  obtain ⟨file, isFile, inFile⟩ := List.mem_flatMap.mp member
  obtain ⟨text, read⟩ := parsed file isFile
  have single := Document.singleMarks_ofText read definition inFile declared isVariable
  exact TypeRef.singleMarks_iff.mp single double

/-- Once the context of some documents is built and their models are extracted, the run fails only
where an operation name is repeated, a variable type is unknown, an operation selects no data or
siblings cannot be named, or where the type of a variable has a mark directly on a mark. The check
of an assembled forest finds no fault and its printing does not fail. The owner of a name that
cannot be given is known, and a name that extends another one goes on with a first character. -/
theorem resolve_print_refusals {schema : Document} {documents : List DocumentFile}
    {config : Config} {context : Context} {models : List Model}
    (built : Context.ofDocument schema documents config = .ok context)
    (extracted : context.models documents = .ok models) :
    (∀ error, (resolve context documents models >>= fun forest =>
        Sdk.print ⟨context, models, forest⟩ {}).outcome = .error error →
      Refusal context (modelTable models) (operationsOf documents) error ∨
        error = .doubleNonNull ∧
          ∃ definition ∈ operationsOf documents, definition.HasDoubleMark) ∧
    (∀ operations forest,
      (collectOperations context (modelTable models) documents).outcome = .ok operations →
      (assemble context.config (modelTable models)
        (Candidate.ofOperations context.config (modelTable models) operations)
          operations).outcome = .ok forest →
      forest.check context (modelTable models) = .ok ()) ∧
    (∀ forest, (resolve context documents models).outcome = .ok forest →
      ∃ output, (Sdk.print ⟨context, models, forest⟩ {}).outcome = .ok output) ∧
    (∀ parent? reserved siblings name first second,
      MethodName.assign context.config parent? reserved siblings =
        .error (.methodConflict name first second parent?) →
      (MethodName.giveNatural parent? reserved siblings).2.get? name = some first) ∧
    ∀ child parent,
      (∀ rest, Names.suffix? parent child = some rest → parent.length < child.length →
        rest ≠ []) ∧
      (Names.isExtension child parent → ∃ rest first tail,
        Names.suffix? parent child = some rest ∧ rest.dropWhile (· = '_') = first :: tail) := by
  obtain ⟨coherent, enclosed, _⟩ := spec_of_models built extracted
  refine ⟨fun error failed => refusal_or_doubleMark built extracted failed,
    fun operations forest collected placed =>
      (accepted_of_assemble coherent enclosed collected placed).1,
    fun forest resolved => exists_print_of_resolve coherent enclosed resolved, ?_, ?_⟩
  · intro parent? reserved siblings name first second unnamed
    obtain ⟨_, _, _, same, _, owned⟩ := MethodName.assign_error unnamed
    cases same
    exact owned
  · intro child parent
    refine ⟨fun rest goesOn longer none_ => ?_, fun extends_ => ?_⟩
    · have whole := Names.toList_of_suffix? goesOn
      rw [none_, List.append_nil] at whole
      rw [String.toList_injective whole] at longer
      exact absurd longer (Nat.lt_irrefl _)
    · obtain ⟨rest, first, tail, goesOn, parted, _⟩ := Names.chainMethod_of_isExtension extends_
      exact ⟨rest, first, tail, goesOn, parted⟩

private theorem exists_of_isOk {α : Type} {outcome : Except Error α} (succeeds : outcome.isOk) :
    ∃ value, outcome = .ok value := by
  cases outcome with
  | error error => cases succeeds
  | ok value => exact ⟨value, rfl⟩

private def issueSchema : String :=
  "type Query \x7b issue(id: ID!): Issue \x7d type Issue \x7b id: ID! \x7d"

private def issueOperation : String :=
  "query issue($id: ID!) \x7b issue(id: $id) \x7b id \x7d \x7d"

/-- One operation with a variable and a result model, from the texts to the forest. -/
theorem resolve_print_refusals_issue : ∃ schema file context models forest output,
    Document.ofText issueSchema = .ok schema ∧
    Document.ofText issueOperation = .ok file.document ∧
    Context.ofDocument schema [file] {} = .ok context ∧
    context.models [file] = .ok models ∧
    (resolve context [file] models).outcome = .ok forest ∧
    (Sdk.print ⟨context, models, forest⟩ {}).outcome = .ok output := by
  have whole : (do
      let schema ← Document.ofText issueSchema
      let file := DocumentFile.mk (← Document.ofText issueOperation) none
      let context ← Context.ofDocument schema [file] {}
      let models ← context.models [file]
      (resolve context [file] models).outcome : Except Error Forest).isOk := by
    set_option maxRecDepth 4000 in cbv
  obtain ⟨forest, resolved⟩ := exists_of_isOk whole
  obtain ⟨schema, readSchema, resolved⟩ := Outcome.bind_eq_ok_iff.mp resolved
  obtain ⟨document, read, resolved⟩ := Outcome.bind_eq_ok_iff.mp resolved
  obtain ⟨context, built, resolved⟩ := Outcome.bind_eq_ok_iff.mp resolved
  obtain ⟨models, extracted, resolved⟩ := Outcome.bind_eq_ok_iff.mp resolved
  obtain ⟨output, printed⟩ := (resolve_print_refusals built extracted).2.2.1 forest resolved
  exact ⟨schema, ⟨document, none⟩, context, models, forest, output, readSchema, read, built,
    extracted, resolved, printed⟩

private def issueQuery (type : TypeRef) : Definition :=
  .operation ⟨none, .query, some "issue", [⟨none, "id", type, none, []⟩], [],
    [.field ⟨none, "issue", [⟨"id", .variable "id"⟩], []⟩
      (some [.field ⟨none, "id", [], []⟩ none])]⟩

/-- An issue whose identifier is declared with a mark on a mark: its model is extracted, and the
operation is not read. -/
theorem exists_doubleMark_failure : ∃ schema file context models error,
    Context.ofDocument schema [file] {} = .ok context ∧
    context.models [file] = .ok models ∧
    (resolve context [file] models >>= fun forest =>
      Sdk.print ⟨context, models, forest⟩ {}).outcome = .error error ∧
    error.category = .schema ∧
    ¬Refusal context (modelTable models) (operationsOf [file]) error := by
  have whole : (do
      let schema ← Document.ofText issueSchema
      let file := DocumentFile.mk ⟨[issueQuery (.nonNull (.nonNull (.named "ID")))]⟩ none
      let context ← Context.ofDocument schema [file] {}
      let models ← context.models [file]
      return (resolve context [file] models >>= fun forest =>
        Sdk.print ⟨context, models, forest⟩ {}).outcome : Except Error (Except Error Output)) =
      .ok (.error .doubleNonNull) := by
    set_option maxRecDepth 4000 in cbv
  obtain ⟨schema, _, whole⟩ := Outcome.bind_eq_ok_iff.mp whole
  obtain ⟨context, built, whole⟩ := Outcome.bind_eq_ok_iff.mp whole
  obtain ⟨models, extracted, whole⟩ := Outcome.bind_eq_ok_iff.mp whole
  refine ⟨schema, _, context, models, _, built, extracted, Except.ok.inj whole, rfl, ?_⟩
  rintro (⟨⟨⟩⟩ | _)

end Forest

end ChainedSdk
