import ChainedSdk.Proofs.Calls
/-!
# Whole generations

A generation is its stages one after the other: whatever they report, it ends as they do. So the
classes of every generated SDK come from a forest that was resolved over the models of the same
documents, whether they are written down as they are or templates stand in for them.
-/

namespace ChainedSdk

theorem Reported.outcome_rethrow {α : Type} (stage : Reported α) (records : Error → Journal) :
    (tryCatch stage fun error => do
      Reported.report (records error)
      throw error).outcome = stage.outcome := by
  obtain ⟨before, outcome⟩ := stage
  cases outcome with
  | error error => rfl
  | ok value => rfl

theorem Context.outcome_build (document : Document) (files : List DocumentFile) (config : Config) :
    (build (.parsed document) files config).outcome = ofDocument document files config := by
  simp only [build, Reported.outcome_bind]
  show (ofDocument document files config).bind _ = _
  cases ofDocument document files config with
  | error error => rfl
  | ok context => rfl

theorem Model.outcome_extract (context : Context) (files : List DocumentFile) :
    (extract context files ∅).1.outcome = context.models files :=
  (Context.extract_eq (FragmentCache.complete_empty context) files).1

theorem Blueprint.outcome_ofSources (schema : SchemaSource) (documents : List DocumentSource)
    (config : ConfigSource) : (Blueprint.ofSources schema documents config).outcome = (do
      let settings ← config.config
      let document ← schema.document
      let files ← documents.mapM DocumentSource.file
      let context ← Context.ofDocument document files settings
      let models ← context.models files
      let forest ← (Forest.resolve context files models).outcome
      return ⟨context, models, forest⟩) := by
  unfold Blueprint.ofSources
  simp only [Reported.outcome_bind, Context.outcome_build, Model.outcome_extract]
  rfl

theorem Sdk.outcome_generate (schema : SchemaSource) (documents : List DocumentSource)
    (config : ConfigSource) (templates : Except Error Templates) :
    (generate schema documents config templates).outcome = (do
      let blueprint ← (Blueprint.ofSources schema documents config).outcome
      let chosen ← templates
      (print blueprint chosen).outcome) := by
  have whole : (Blueprint.ofSources schema documents config >>= fun blueprint =>
      (do print blueprint (← templates) : Reported Output)).outcome = (do
      let blueprint ← (Blueprint.ofSources schema documents config).outcome
      let chosen ← templates
      (print blueprint chosen).outcome) := by
    simp only [Reported.outcome_bind]
    cases templates with
    | error error => rfl
    | ok chosen => rfl
  rw [← whole]
  exact Reported.outcome_rethrow _ fun error => [failure error]

/-- What a generation that succeeds has gone through. -/
structure Sdk.Generates (schema : SchemaSource) (documents : List DocumentSource)
    (config : ConfigSource) (templates : Templates) (output : Output) (files : List DocumentFile)
    (context : Context) (models : List Model) (forest : Forest) (classes : Classes) : Prop where
  read : documents.mapM DocumentSource.file = .ok files
  built : ∃ settings document, config.config = .ok settings ∧ schema.document = .ok document ∧
    Context.ofDocument document files settings = .ok context
  extracted : context.models files = .ok models
  resolved : (Forest.resolve context files models).outcome = .ok forest
  printed : Sdk.classes context models forest = .ok classes
  written : output = classes.outputWith templates context.config

theorem Sdk.generates_of_generate {schema : SchemaSource} {documents : List DocumentSource}
    {config : ConfigSource} {templates : Except Error Templates} {output : Output}
    (generated : (generate schema documents config templates).outcome = .ok output) :
    ∃ chosen files context models forest classes, templates = .ok chosen ∧
      Generates schema documents config chosen output files context models forest classes := by
  rw [outcome_generate, Blueprint.outcome_ofSources] at generated
  obtain ⟨blueprint, made, onward⟩ := Outcome.bind_eq_ok_iff.mp generated
  obtain ⟨chosen, isChosen, printed⟩ := Outcome.bind_eq_ok_iff.mp onward
  obtain ⟨settings, isConfig, made⟩ := Outcome.bind_eq_ok_iff.mp made
  obtain ⟨document, isSchema, made⟩ := Outcome.bind_eq_ok_iff.mp made
  obtain ⟨files, read, made⟩ := Outcome.bind_eq_ok_iff.mp made
  obtain ⟨context, built, made⟩ := Outcome.bind_eq_ok_iff.mp made
  obtain ⟨models, extracted, made⟩ := Outcome.bind_eq_ok_iff.mp made
  obtain ⟨forest, resolved, same⟩ := Outcome.bind_eq_ok_iff.mp made
  cases same
  obtain ⟨classes, isPrinted, written⟩ := print_eq_ok printed
  exact ⟨chosen, files, context, models, forest, classes, isChosen, {
    read, extracted, resolved, printed := isPrinted, written
    built := ⟨settings, document, isConfig, isSchema, built⟩ }⟩

/-! ## Sources that are parsed already -/

namespace Sdk

variable {schema : Document} {files : List DocumentFile} {config : Config} {context : Context}
  {models : List Model} {forest : Forest} {printed : Classes}

theorem outcome_print_of_classes (templates : Templates)
    (built : classes context models forest = .ok printed) :
    (print ⟨context, models, forest⟩ templates).outcome =
      .ok (printed.outputWith templates context.config) := by
  obtain ⟨isModels, isOperations, isEntry⟩ := classes_eq_ok built
  rw [print, isModels, isOperations, isEntry]
  rfl

/-- The stages of a generation from sources that are parsed and loaded already. -/
def stages (schema : Document) (files : List DocumentFile) (config : Config) :
    Except Error (Context × List Model × Forest × Classes) := do
  let context ← Context.ofDocument schema files config
  let models ← context.models files
  let forest ← (Forest.resolve context files models).outcome
  return (context, models, forest, ← classes context models forest)

theorem mapM_file_parsed (files : List DocumentFile) :
    (files.map DocumentSource.parsed).mapM DocumentSource.file = .ok files := by
  rw [Outcome.mapM_eq_ok_iff, List.forall₂_map_left_iff]
  exact List.forall₂_same.mpr fun _ _ => rfl

theorem stages_eq_ok_iff : stages schema files config = .ok (context, models, forest, printed) ↔
    Context.ofDocument schema files config = .ok context ∧ context.models files = .ok models ∧
      (Forest.resolve context files models).outcome = .ok forest ∧
      classes context models forest = .ok printed := by
  simp only [stages, Outcome.bind_eq_ok_iff, pure, Except.pure, Except.ok.injEq, Prod.mk.injEq]
  constructor
  · rintro ⟨_, built, _, extracted, _, resolved, _, isPrinted, rfl, rfl, rfl, rfl⟩
    exact ⟨built, extracted, resolved, isPrinted⟩
  · rintro ⟨built, extracted, resolved, isPrinted⟩
    exact ⟨_, built, _, extracted, _, resolved, _, isPrinted, rfl, rfl, rfl, rfl⟩

/-- Stages that succeed are a generation. -/
theorem generate_of_stages
    (ran : stages schema files config = .ok (context, models, forest, printed)) :
    (generate (.parsed schema) (files.map .parsed) (.loaded config) (.ok {})).outcome =
      .ok (printed.outputWith {} context.config) := by
  obtain ⟨built, extracted, resolved, isPrinted⟩ := stages_eq_ok_iff.mp ran
  have made : (Blueprint.ofSources (.parsed schema) (files.map .parsed) (.loaded config)).outcome =
      .ok ⟨context, models, forest⟩ := by
    rw [Blueprint.outcome_ofSources]
    simp only [mapM_file_parsed, SchemaSource.document, ConfigSource.config, bind, Except.bind,
      pure, Except.pure, built, extracted, resolved]
  rw [outcome_generate, made]
  exact outcome_print_of_classes {} isPrinted

theorem Generates.stages_eq {templates : Templates} {output : Output} {read : List DocumentFile}
    (generates : Generates (.parsed schema) (files.map .parsed) (.loaded config) templates output
      read context models forest printed) :
    read = files ∧ stages schema files config = .ok (context, models, forest, printed) := by
  obtain ⟨_, _, isConfig, isSchema, built⟩ := generates.built
  cases isConfig
  cases isSchema
  cases generates.read.symm.trans (mapM_file_parsed files)
  exact ⟨rfl, stages_eq_ok_iff.mpr
    ⟨built, generates.extracted, generates.resolved, generates.printed⟩⟩

theorem exists_generates_of_stages
    (ran : stages schema files config = .ok (context, models, forest, printed)) :
    ∃ output chosen,
      (generate (.parsed schema) (files.map .parsed) (.loaded config) (.ok {})).outcome =
        .ok output ∧
      Generates (.parsed schema) (files.map .parsed) (.loaded config) chosen output files context
        models forest printed := by
  have generated := generate_of_stages ran
  obtain ⟨chosen, read, other, found, grown, classes, _, generates⟩ :=
    generates_of_generate generated
  obtain ⟨rfl, again⟩ := generates.stages_eq
  cases ran.symm.trans again
  exact ⟨_, chosen, generated, generates⟩

end Sdk

end ChainedSdk
