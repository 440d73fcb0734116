import ChainedSdk.Proofs.ModelNames
import ChainedSdk.Proofs.SchemaTypes
import ChainedSdk.Sdk.DataType
/-!
# The table of extracted models

What later stages may rely on when they look something up in the models: every model stands under
its own name, its fields have distinct names and known types, the models of nested selections are
there, and every model stands before the one that holds its data.
-/

namespace ChainedSdk

/-! ## Models under their names -/

theorem mem_of_get?_modelTable {models : List Model} {name : String} {model : Model}
    (found : (modelTable models).get? name = some model) : model ∈ models ∧ model.name = name := by
  rcases Table.get?_insertAll_mem _ found with isEntry | impossible
  · obtain ⟨_, member, same⟩ := List.mem_map.mp isEntry
    cases same
    exact ⟨member, rfl⟩
  · cases impossible

theorem get?_modelTable_iff {models : List Model} (distinct : (models.map (·.name)).Nodup)
    {name : String} {model : Model} :
    (modelTable models).get? name = some model ↔ model ∈ models ∧ model.name = name := by
  constructor
  · exact mem_of_get?_modelTable
  · rintro ⟨member, rfl⟩
    apply Table.get?_insertAll_of_mem
    · rw [List.map_map]
      exact distinct
    · exact List.mem_map.mpr ⟨model, member, rfl⟩

/-! ## Coherent tables -/

/-- The fields of a model have distinct names and known types, and the model of a nested selection
is there under the name of its place. -/
structure Model.Fits (model : Model) (context : Context) (made : Table Model) : Prop where
  distinct : (model.fields.map (·.name)).Nodup
  typed : ∀ field ∈ model.fields, context.type? field.type.name = some field.type
  nested : ∀ field ∈ model.fields, ∀ name, field.model? = some name →
    name = Names.nestedModel model.name field.name ∧
      ∃ inner, made.get? name = some inner ∧ inner.path = model.path ++ [field.name]

namespace Context

/-- Every model stands under its own name and fits. -/
structure Coherent (context : Context) (made : Table Model) : Prop where
  own : ∀ name model, made.get? name = some model → model.name = name
  fits : ∀ name model, made.get? name = some model → model.Fits context made

variable {context : Context} {site : ModelSite} {made after : Table Model}
  {picks : List (String × Pick)} {fields : List ModelField} {definitions : List Definition}

theorem coherent_empty (context : Context) : context.Coherent ∅ where
  own := fun _ _ impossible => nomatch impossible
  fits := fun _ _ impossible => nomatch impossible

theorem Coherent.insert (coherent : context.Coherent made) {model : Model}
    (fresh : made.get? model.name = none)
    (fits : model.Fits context (made.insert model.name model)) :
    context.Coherent (made.insert model.name model) where
  own := by
    intro name other found
    rw [Table.get?_insert] at found
    split at found
    · next same =>
      cases found
      exact same.symm
    · exact coherent.own name other found
  fits := by
    intro name other found
    rw [Table.get?_insert] at found
    split at found
    · cases found
      exact fits
    · have before := coherent.fits name other found
      refine ⟨before.distinct, before.typed, fun field member inner isInner => ?_⟩
      obtain ⟨isNested, held, present, deeper⟩ := before.nested field member inner isInner
      refine ⟨isNested, held, ?_, deeper⟩
      rw [Table.get?_insert_of_ne _ _ fun same => ?_]
      · exact present
      · rw [same, fresh] at present
        cases present

theorem typed_of_resolve (own : OwnNames context.types) {key : String} {pick : Pick}
    {field : ModelField} {nested? : Option ModelSite}
    (resolved : context.resolve site key pick = .ok (field, nested?)) :
    context.type? field.type.name = some field.type := by
  have named {name : String} {type : TypeDescriptor} (known : context.type? name = some type) :
      context.type? type.name = some type := by
    rw [own name type known]
    exact known
  rcases resolve_eq_ok resolved with ⟨_, rfl, type, known, rfl⟩ |
    ⟨_, declared, type, _, known, _, rfl⟩
  · exact named known
  · exact named known

theorem Fills.names (fills : context.Fills site picks made fields after) :
    fields.map (·.name) = picks.map Prod.fst := by
  induction fills with
  | nil => rfl
  | leaf resolved _ ih =>
    rw [List.map_cons, List.map_cons, ih, (spec_of_resolve resolved).1.name_eq]
  | nested resolved _ _ _ _ _ ih =>
    rw [List.map_cons, List.map_cons, ih, (spec_of_resolve resolved).1.name_eq]

/-- The fields of a site's model are typed, and the models inside them are there. -/
structure Filled (context : Context) (site : ModelSite) (fields : List ModelField)
    (after : Table Model) : Prop where
  typed : ∀ field ∈ fields, context.type? field.type.name = some field.type
  nested : ∀ field ∈ fields, ∀ name, field.model? = some name →
    name = Names.nestedModel site.name field.name ∧
      ∃ inner, after.get? name = some inner ∧ inner.path = site.path ++ [field.name]

theorem Filled.fits (filled : context.Filled site fields after)
    (distinct : (fields.map (·.name)).Nodup) (fresh : after.get? site.name = none) :
    (site.model fields).Fits context (after.insert site.name (site.model fields)) where
  distinct := distinct
  typed := filled.typed
  nested := by
    intro field member name isNested
    obtain ⟨isName, inner, present, deeper⟩ := filled.nested field member name isNested
    refine ⟨isName, inner, ?_, deeper⟩
    rw [Table.get?_insert_of_ne _ _ fun same => ?_]
    · exact present
    · rw [same, fresh] at present
      cases present

theorem Fills.coherent (fills : context.Fills site picks made fields after)
    (own : OwnNames context.types) (coherent : context.Coherent made) :
    context.Coherent after ∧ context.Filled site fields after := by
  induction fills with
  | nil =>
    refine ⟨coherent, ?_, ?_⟩
    · exact fun _ impossible => nomatch impossible
    · exact fun _ impossible => nomatch impossible
  | leaf resolved _ ih =>
    obtain ⟨whole, filled⟩ := ih coherent
    obtain ⟨_, isLeaf, _⟩ := spec_of_resolve resolved
    refine ⟨whole, List.forall_mem_cons.mpr ⟨typed_of_resolve own resolved, filled.typed⟩,
      List.forall_mem_cons.mpr ⟨fun name isNested => ?_, filled.nested⟩⟩
    rw [isLeaf] at isNested
    cases isNested
  | @nested site inner key pick rest made half after field innerFields fields entries resolved
      fresh inlines inside further ihInside ihFurther =>
    obtain ⟨halfWay, innerFilled⟩ := ihInside coherent
    have innerFresh : half.get? inner.name = none := by
      rw [inside.own_name, fresh]
    have innerDistinct : (innerFields.map (·.name)).Nodup := by
      rw [inside.names]
      exact (Table.ofList entries).nodup_keys
    obtain ⟨whole, filled⟩ := ihFurther
      (halfWay.insert innerFresh (innerFilled.fits innerDistinct innerFresh))
    obtain ⟨_, isNested, isSite⟩ := spec_of_resolve resolved
    refine ⟨whole, List.forall_mem_cons.mpr ⟨typed_of_resolve own resolved, filled.typed⟩,
      List.forall_mem_cons.mpr ⟨fun name found => ?_, filled.nested⟩⟩
    rw [isNested] at found
    cases found
    obtain ⟨block, rfl⟩ := isSite inner rfl
    exact ⟨rfl, _, further.keeps (Table.get?_insert_self _ _ _), rfl⟩

theorem Makes.coherent (makes : context.Makes site made after) (own : OwnNames context.types)
    (coherent : context.Coherent made) : context.Coherent after := by
  obtain ⟨fresh, entries, fields, half, _, fills, rfl⟩ := makes
  obtain ⟨halfWay, filled⟩ := fills.coherent own coherent
  have stillFresh : half.get? site.name = none := by
    rw [fills.own_name, fresh]
  have distinct : (fields.map (·.name)).Nodup := by
    rw [fills.names]
    exact (Table.ofList entries).nodup_keys
  exact halfWay.insert stillFresh (filled.fits distinct stillFresh)

theorem MakesAll.coherent (makes : context.MakesAll definitions made after)
    (own : OwnNames context.types) (coherent : context.Coherent made) :
    context.Coherent after := by
  induction makes with
  | nil => exact coherent
  | skip _ _ ih => exact ih coherent
  | site _ makes _ ih => exact ih (makes.coherent own coherent)

/-- The values of a coherent table, put under their names, are the table again. -/
theorem Coherent.modelTable_values (coherent : context.Coherent made) :
    modelTable made.values = made := by
  have entries : made.values.map (fun model => (model.name, model)) = made.toList := by
    rw [Table.values, List.map_map]
    refine (List.map_congr_left fun entry member => ?_).trans (List.map_id _)
    have named := coherent.own entry.1 entry.2 ((Table.get?_eq_some_iff _ _ _).mpr member)
    exact Prod.ext named rfl
  rw [modelTable, entries, Table.ofList_toList]

/-! ## Root selections -/

/-- Every operation has a name, and the model of its root selection is there. -/
theorem MakesAll.exists_root (makes : context.MakesAll definitions made after)
    {operation : OperationDefinition} (member : .operation operation ∈ definitions) :
    ∃ name root, operation.name? = some name ∧
      after.get? (Names.operationModel name operation.kind) = some root := by
  rcases makes.makes_of_mem member with nothing | ⟨site, half, next, found, makesSite, kept⟩
  · obtain ⟨_, _, impossible⟩ := Outcome.map_eq_ok_iff.mp nothing
    cases impossible
  · rcases siteOf_eq_some found with ⟨_, name, _, same, isName, _, rfl⟩ | ⟨_, _, impossible, _⟩
    · cases same
      obtain ⟨root, isRoot⟩ := Option.isSome_iff_exists.mp makesSite.taken
      exact ⟨name, root, isName, kept _ _ isRoot⟩
    · cases impossible

private theorem MakesAll.fresh (makes : context.MakesAll definitions made after) {name : String}
    {model : Model} (present : made.get? name = some model) {definition : Definition}
    (member : definition ∈ definitions) (found : context.siteOf definition = .ok (some site)) :
    site.name ≠ name := by
  induction makes generalizing model with
  | nil => cases member
  | skip nothing _ ih =>
    rcases List.mem_cons.mp member with rfl | later
    · rw [nothing] at found
      cases found
    · exact ih present later
  | site isSite makes _ ih =>
    rcases List.mem_cons.mp member with rfl | later
    · rw [isSite] at found
      cases found
      rintro rfl
      rw [makes.1] at present
      cases present
    · exact ih (makes.keeps present) later

theorem MakesAll.distinct_sites (makes : context.MakesAll definitions made after) :
    definitions.Pairwise fun first second => ∀ site other,
      context.siteOf first = .ok (some site) → context.siteOf second = .ok (some other) →
        site.name ≠ other.name := by
  induction makes with
  | nil => exact .nil
  | skip nothing _ ih =>
    refine .cons (fun _ _ site _ found => ?_) ih
    rw [nothing] at found
    cases found
  | site isSite makes further ih =>
    refine .cons (fun second member site other found foundOther same => ?_) ih
    rw [isSite] at found
    cases found
    obtain ⟨model, present⟩ := Option.isSome_iff_exists.mp makes.taken
    exact further.fresh present member foundOther same.symm

end Context

end ChainedSdk
