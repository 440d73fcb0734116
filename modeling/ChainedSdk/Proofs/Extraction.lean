import ChainedSdk.Model.Extract
import ChainedSdk.Proofs.Flattening
/-!
# Extraction without a memory

The models of a selection as a function of the models made before it. `addSite` takes the depth that
it may go down; `Fills` and `Makes` say without a depth which models are made. What is extracted
with a memory of fragments is what these give.
-/

namespace ChainedSdk

/-- The model of a site with its fields. -/
def ModelSite.model (site : ModelSite) (fields : List ModelField) : Model where
  name := site.name
  typeName := site.owner.name
  fields := fields
  source := site.source
  sourceKind := site.sourceKind
  path := site.path

namespace Context

/-- The field of a model for a selected field, and the site of the selection inside it. -/
def resolve (context : Context) (site : ModelSite) (key : String) (pick : Pick) :
    Except Error (ModelField × Option ModelSite) :=
  if pick.head.name = typenameField then do
    let type ← context.requireType "String" site.source
    return ({ name := key, fieldName := pick.head.name, type, isOptional := false }, none)
  else match pick.owner.field? pick.head.name with
    | none => .error (.unresolved site.source (.field pick.owner.name pick.head.name))
    | some field => do
      let type ← context.requireType field.typeName site.source
      let nested? := pick.selections?.map (site.nested key type)
      return ({
        name := key
        fieldName := pick.head.name
        type
        isList := field.isList
        isOptional := field.isOptional
        model? := nested?.map (·.name) }, nested?)

/-- The fields of a model, with the models of the selections inside them. -/
def addFields (context : Context)
    (addNested : ModelSite → Table Model → Except Error (Table Model)) (site : ModelSite) :
    List (String × Pick) → Table Model → Except Error (List ModelField × Table Model)
  | [], made => .ok ([], made)
  | (key, pick) :: rest, made => do
    let (field, nested?) ← context.resolve site key pick
    let made ← match nested? with
      | none => pure made
      | some inner => addNested inner made
    let (fields, made) ← context.addFields addNested site rest made
    return (field :: fields, made)

/-- The models made before with those of a site, going down no more than some depth. -/
def addSite (context : Context) : (depth : Nat) → ModelSite → Table Model →
    Except Error (Table Model)
  | 0, _, _ => .error .endlessSelection
  | depth + 1, site, made =>
    match made.get? site.name with
    | some existing =>
      .error (.duplicateModel site.name existing.sourceKind existing.source
        site.sourceKind site.source)
    | none => do
      let entries ← context.inlined site.source [] site.owner site.selections
      let (fields, made) ← context.addFields (context.addSite depth) site
        (Table.ofList entries).toList made
      return made.insert site.name (site.model fields)

/-- The site of the root selection of a definition, if it selects anything. -/
def siteOf (context : Context) : Definition → Except Error (Option ModelSite)
  | .operation operation => (context.operationSite operation).map some
  | .fragment fragment => (context.fragmentSite fragment).map some
  | _ => .ok none

/-- The models made before with those of some definitions. -/
def addSites (context : Context) (depth : Nat) :
    List Definition → Table Model → Except Error (Table Model)
  | [], made => .ok made
  | definition :: rest, made => do
    let made ← match ← context.siteOf definition with
      | none => pure made
      | some site => context.addSite depth site made
    context.addSites depth rest made

/-! ## The memory does not show -/

open Collecting

theorem modelField_eq (context : Context) (addNested : ModelSite → Extracting Unit)
    (site : ModelSite) (key : String) (pick : Pick) :
    context.modelField addNested site key pick = (do
      let resolved ← liftExcept (context.resolve site key pick)
      resolved.2.forM addNested
      return resolved.1) := by
  unfold modelField resolve
  split
  · cases context.requireType "String" site.source with
    | error error => rfl
    | ok type => rfl
  · cases pick.owner.field? pick.head.name with
    | none => rfl
    | some field =>
      dsimp only
      cases context.requireType field.typeName site.source with
      | error error => rfl
      | ok type =>
        show (pure type >>= _) = (pure _ >>= _)
        rw [pure_bind, pure_bind]

theorem run_liftExcept {α : Type} (outcome : Except Error α) (made : Table Model) :
    (liftExcept outcome : Extracting α).run made =
      ((liftExcept outcome : Collecting α) >>= fun value => pure (value, made)) := by
  cases outcome with
  | ok value => rfl
  | error error => rfl

theorem gives_modelFields {context : Context} {addNested : ModelSite → Extracting Unit}
    {add : ModelSite → Table Model → Except Error (Table Model)}
    (nested : ∀ inner made, Gives context ((addNested inner).run made)
      ((add inner made).map fun after => ((), after)))
    (site : ModelSite) (picks : List (String × Pick)) (made : Table Model) :
    Gives context
      ((picks.mapM fun entry => context.modelField addNested site entry.1 entry.2).run made)
      (context.addFields add site picks made) := by
  induction picks generalizing made with
  | nil => exact gives_pure context ([], made)
  | cons entry rest ih =>
    obtain ⟨key, pick⟩ := entry
    rw [List.mapM_cons, modelField_eq, addFields]
    simp only [StateT.run_bind, bind_assoc, run_liftExcept, pure_bind, StateT.run_pure]
    refine (gives_liftExcept context _).bind fun resolved _ => ?_
    obtain ⟨field, nested?⟩ := resolved
    cases nested? with
    | none =>
      refine (ih made).bind fun filled _ => ?_
      exact gives_pure context (field :: filled.1, filled.2)
    | some inner =>
      have both := (nested inner made).bind fun state _ => (ih state.2).bind fun filled _ =>
        gives_pure context (field :: filled.1, filled.2)
      refine both.congr ?_
      dsimp only
      cases add inner made with
      | error error => rfl
      | ok after => rfl

theorem gives_addModel (context : Context) (depth : Nat) (site : ModelSite)
    (made : Table Model) :
    Gives context ((context.addModel depth site).run made)
      ((context.addSite depth site made).map fun after => ((), after)) := by
  induction depth generalizing site made with
  | zero => exact gives_throw context _
  | succ depth ih =>
    rw [addModel, addSite]
    simp only [StateT.run_bind, StateT.run_get, pure_bind]
    cases made.get? site.name with
    | some existing => exact gives_throw context _
    | none =>
      have collected := gives_collect context site.source site.owner site.selections
      have both := collected.bind fun picks _ =>
        (gives_modelFields ih site picks.toList made).bind fun filled _ =>
          gives_pure context ((), filled.2.insert site.name (site.model filled.1))
      simp only [StateT.run_bind, StateT.run_monadLift, bind_assoc, pure_bind]
      refine Gives.congr both ?_
      cases context.inlined site.source [] site.owner site.selections with
      | error error => rfl
      | ok entries =>
        cases filled : context.addFields (context.addSite depth) site (Table.ofList entries).toList
            made with
        | error error => simp only [Except.map, bind, Except.bind, filled]
        | ok result => simp only [Except.map, bind, Except.bind, filled]; rfl

private theorem gives_addDefinition (context : Context) (depth : Nat) (definition : Definition)
    (made : Table Model) :
    Gives context ((context.addDefinition depth definition).run made)
      ((context.siteOf definition >>= fun site? => match site? with
        | none => .ok made
        | some site => context.addSite depth site made).map fun after => ((), after)) := by
  have added (found : Except Error ModelSite) :
      Gives context ((liftExcept found >>= context.addModel depth).run made)
        (((found.map some) >>= fun site? => match site? with
          | none => .ok made
          | some site => context.addSite depth site made).map fun after => ((), after)) := by
    rw [StateT.run_bind, run_liftExcept]
    cases found with
    | error error => exact gives_throw context error
    | ok site => exact context.gives_addModel depth site made
  cases definition with
  | operation operation => exact added (context.operationSite operation)
  | fragment fragment => exact added (context.fragmentSite fragment)
  | type _ => exact gives_pure context _
  | typeExtension _ => exact gives_pure context _
  | schema _ => exact gives_pure context _
  | schemaExtension _ => exact gives_pure context _
  | directive _ => exact gives_pure context _
  | directiveExtension _ => exact gives_pure context _

private theorem gives_addDefinitions (context : Context) (depth : Nat)
    (definitions : List Definition) (made : Table Model) :
    Gives context ((definitions.forM (context.addDefinition depth)).run made)
      ((context.addSites depth definitions made).map fun after => ((), after)) := by
  induction definitions generalizing made with
  | nil => exact gives_pure context ((), made)
  | cons definition rest ih =>
    have unfolded : ((definition :: rest).forM (context.addDefinition depth)).run made =
        ((context.addDefinition depth definition).run made >>= fun state =>
          (rest.forM (context.addDefinition depth)).run state.2) := rfl
    rw [unfolded, addSites]
    refine ((context.gives_addDefinition depth definition made).bind
      fun state _ => ih state.2).congr ?_
    cases context.siteOf definition with
    | error error => rfl
    | ok site? =>
      cases site? with
      | none => rfl
      | some site =>
        dsimp only [bind, Except.bind]
        cases context.addSite depth site made with
        | error error => rfl
        | ok after => rfl

theorem gives_extractModels (context : Context) (documents : List DocumentFile) :
    Gives context (context.extractModels documents)
      ((context.addSites (context.depthBound documents) (definitionsOf documents) ∅).map
        Table.values) := by
  have gives := (context.gives_addDefinitions (context.depthBound documents)
    (definitionsOf documents) ∅).bind fun state _ => gives_pure context state.2.values
  apply gives.congr
  cases context.addSites (context.depthBound documents) (definitionsOf documents) ∅ with
  | error error => rfl
  | ok made => rfl

/-- The models of some documents do not depend on what is remembered of fragments. -/
theorem models_eq (context : Context) (documents : List DocumentFile) :
    context.models documents =
      (context.addSites (context.depthBound documents) (definitionsOf documents) ∅).map
        Table.values := by
  obtain ⟨filled, _, ran⟩ :=
    context.gives_extractModels documents ∅ (FragmentCache.complete_empty context)
  exact congrArg Prod.fst ran

/-- Whoever has extracted before extracts the same models, and remembers whole fragments again. -/
theorem extract_eq {context : Context} {cache : FragmentCache} (complete : cache.Complete context)
    (documents : List DocumentFile) :
    (Model.extract context documents cache).1.outcome = context.models documents ∧
      (Model.extract context documents cache).2.Complete context := by
  obtain ⟨filled, stays, ran⟩ := context.gives_extractModels documents cache complete
  unfold Model.extract
  rw [models_eq, ran]
  refine ⟨?_, stays⟩
  cases (context.addSites (context.depthBound documents) (definitionsOf documents) ∅).map
    Table.values with
  | error error => rfl
  | ok models => rfl

/-! ## Which models are made -/

/-- The fields of a site's model, and the models before and after those inside them. -/
inductive Fills (context : Context) : ModelSite → List (String × Pick) → Table Model →
    List ModelField → Table Model → Prop
  | nil {site : ModelSite} {made : Table Model} : Fills context site [] made [] made
  | leaf {site : ModelSite} {key : String} {pick : Pick} {rest : List (String × Pick)}
      {made after : Table Model} {field : ModelField} {fields : List ModelField}
      (resolved : context.resolve site key pick = .ok (field, none))
      (further : Fills context site rest made fields after) :
      Fills context site ((key, pick) :: rest) made (field :: fields) after
  | nested {site inner : ModelSite} {key : String} {pick : Pick} {rest : List (String × Pick)}
      {made half after : Table Model} {field : ModelField} {innerFields fields : List ModelField}
      {entries : List (String × Pick)}
      (resolved : context.resolve site key pick = .ok (field, some inner))
      (fresh : made.get? inner.name = none)
      (inlines : context.Inlines inner.owner inner.selections entries)
      (inside : Fills context inner (Table.ofList entries).toList made innerFields half)
      (further : Fills context site rest (half.insert inner.name (inner.model innerFields))
        fields after) :
      Fills context site ((key, pick) :: rest) made (field :: fields) after

/-- The models before and after those of a site. -/
def Makes (context : Context) (site : ModelSite) (made after : Table Model) : Prop :=
  made.get? site.name = none ∧ ∃ entries fields half,
    context.Inlines site.owner site.selections entries ∧
    context.Fills site (Table.ofList entries).toList made fields half ∧
    after = half.insert site.name (site.model fields)

/-- The models before and after those of some definitions. -/
inductive MakesAll (context : Context) : List Definition → Table Model → Table Model → Prop
  | nil {made : Table Model} : MakesAll context [] made made
  | skip {definition : Definition} {rest : List Definition} {made after : Table Model}
      (nothing : context.siteOf definition = .ok none)
      (further : MakesAll context rest made after) :
      MakesAll context (definition :: rest) made after
  | site {definition : Definition} {rest : List Definition} {made half after : Table Model}
      {site : ModelSite} (found : context.siteOf definition = .ok (some site))
      (makes : context.Makes site made half) (further : MakesAll context rest half after) :
      MakesAll context (definition :: rest) made after

variable {context : Context} {site : ModelSite} {made after : Table Model}
  {picks : List (String × Pick)} {fields : List ModelField} {depth : Nat}

private theorem fills_of_addFields {add : ModelSite → Table Model → Except Error (Table Model)}
    (adds : ∀ inner before next, add inner before = .ok next → context.Makes inner before next)
    (filled : context.addFields add site picks made = .ok (fields, after)) :
    context.Fills site picks made fields after := by
  induction picks generalizing made fields with
  | nil =>
    cases filled
    exact .nil
  | cons entry rest ih =>
    obtain ⟨key, pick⟩ := entry
    rw [addFields] at filled
    obtain ⟨⟨field, nested?⟩, resolved, onward⟩ := Outcome.bind_eq_ok_iff.mp filled
    cases nested? with
    | none =>
      obtain ⟨_, ⟨⟩, onward⟩ := Outcome.bind_eq_ok_iff.mp onward
      obtain ⟨⟨others, last⟩, further, same⟩ := Outcome.bind_eq_ok_iff.mp onward
      cases same
      exact .leaf resolved (ih further)
    | some inner =>
      obtain ⟨next, added, further⟩ := Outcome.bind_eq_ok_iff.mp onward
      obtain ⟨⟨others, last⟩, further, same⟩ := Outcome.bind_eq_ok_iff.mp further
      cases same
      obtain ⟨fresh, entries, innerFields, half, inlines, inside, rfl⟩ := adds inner made next added
      exact .nested resolved fresh inlines inside (ih further)

theorem makes_of_addSite (added : context.addSite depth site made = .ok after) :
    context.Makes site made after := by
  induction depth generalizing site made after with
  | zero => cases added
  | succ depth ih =>
    rw [addSite] at added
    cases fresh : made.get? site.name with
    | some existing =>
      rw [fresh] at added
      cases added
    | none =>
      rw [fresh] at added
      obtain ⟨entries, expanded, onward⟩ := Outcome.bind_eq_ok_iff.mp added
      obtain ⟨⟨fields, half⟩, filled, same⟩ := Outcome.bind_eq_ok_iff.mp onward
      cases same
      exact ⟨fresh, entries, fields, half, inlines_of_inlined expanded,
        fills_of_addFields (fun _ _ _ => ih) filled, rfl⟩

theorem fills_of_addFields_addSite
    (filled : context.addFields (context.addSite depth) site picks made = .ok (fields, after)) :
    context.Fills site picks made fields after :=
  fills_of_addFields (fun _ _ _ => makes_of_addSite) filled

theorem makesAll_of_addSites {definitions : List Definition}
    (added : context.addSites depth definitions made = .ok after) :
    context.MakesAll definitions made after := by
  induction definitions generalizing made with
  | nil =>
    cases added
    exact .nil
  | cons definition rest ih =>
    rw [addSites] at added
    obtain ⟨site?, found, onward⟩ := Outcome.bind_eq_ok_iff.mp added
    cases site? with
    | none => exact .skip found (ih onward)
    | some site =>
      obtain ⟨half, addedSite, further⟩ := Outcome.bind_eq_ok_iff.mp onward
      exact .site found (makes_of_addSite addedSite) (ih further)

/-- Successful extraction makes the models of all definitions in order. -/
theorem makesAll_of_models {documents : List DocumentFile} {models : List Model}
    (extracted : context.models documents = .ok models) :
    ∃ made, context.MakesAll (definitionsOf documents) ∅ made ∧ models = made.values := by
  rw [models_eq] at extracted
  obtain ⟨made, added, same⟩ := Outcome.map_eq_ok_iff.mp extracted
  exact ⟨made, makesAll_of_addSites added, same.symm⟩

end Context

end ChainedSdk
