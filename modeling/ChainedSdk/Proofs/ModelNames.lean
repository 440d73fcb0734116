import ChainedSdk.Proofs.Extraction
import ChainedSdk.Proofs.Words
/-!
# Names of extracted models

Which names the models of a site take. Nothing that was made before is touched, every new name lies
under the site, and none lies under a nested name that is not taken itself. So a name that is free
has nothing under it.
-/

namespace ChainedSdk.Context

open Names

variable {context : Context} {site : ModelSite} {made after : Table Model}
  {picks : List (String × Pick)} {fields : List ModelField}

/-! ## Resolved fields -/

/-- What a resolved field is: the type name of an object, or a field that the type declares. -/
theorem resolve_eq_ok {key : String} {pick : Pick} {field : ModelField}
    {nested? : Option ModelSite} (resolved : context.resolve site key pick = .ok (field, nested?)) :
    (pick.head.name = typenameField ∧ nested? = none ∧ ∃ type,
      context.type? "String" = some type ∧
      field = { name := key, fieldName := pick.head.name, type, isOptional := false }) ∨
    (pick.head.name ≠ typenameField ∧ ∃ declared type,
      pick.owner.field? pick.head.name = some declared ∧
      context.type? declared.typeName = some type ∧
      nested? = pick.selections?.map (site.nested key type) ∧
      field = {
        name := key, fieldName := pick.head.name, type, isList := declared.isList,
        isOptional := declared.isOptional, model? := nested?.map (·.name) }) := by
  unfold resolve at resolved
  split at resolved
  · next isTypename =>
    obtain ⟨type, known, same⟩ := Outcome.bind_eq_ok_iff.mp resolved
    cases same
    exact Or.inl ⟨isTypename, rfl, type, requireType_eq_ok_iff.mp known, rfl⟩
  · next ordinary =>
    split at resolved
    · cases resolved
    · next declared isDeclared =>
      obtain ⟨type, known, same⟩ := Outcome.bind_eq_ok_iff.mp resolved
      cases same
      exact Or.inr ⟨ordinary, declared, type, isDeclared, requireType_eq_ok_iff.mp known, rfl, rfl⟩

theorem resolve_eq_error {key : String} {pick : Pick} {error : Error}
    (failed : context.resolve site key pick = .error error) :
    ∃ reference, error = .unresolved site.source reference := by
  unfold resolve at failed
  split at failed
  · rcases Outcome.bind_eq_error_iff.mp failed with unknown | ⟨_, _, impossible⟩
    · exact ⟨_, (requireType_eq_error unknown).2⟩
    · cases impossible
  · split at failed
    · cases failed
      exact ⟨_, rfl⟩
    · rcases Outcome.bind_eq_error_iff.mp failed with unknown | ⟨_, _, impossible⟩
      · exact ⟨_, (requireType_eq_error unknown).2⟩
      · cases impossible

/-- A field has the key of its pick, and a model exactly where the pick has a selection and is not
the type name. -/
structure FieldOf (entry : String × Pick) (field : ModelField) : Prop where
  name_eq : field.name = entry.1
  fieldName_eq : field.fieldName = entry.2.head.name
  isSome_iff : field.model?.isSome ↔
    entry.2.head.name ≠ typenameField ∧ entry.2.selections?.isSome

theorem spec_of_resolve {key : String} {pick : Pick} {field : ModelField}
    {nested? : Option ModelSite} (resolved : context.resolve site key pick = .ok (field, nested?)) :
    FieldOf (key, pick) field ∧ field.model? = nested?.map (·.name) ∧
      ∀ inner, nested? = some inner → ∃ block, inner = site.nested field.name field.type block := by
  rcases resolve_eq_ok resolved with ⟨isTypename, rfl, _, _, rfl⟩ |
    ⟨ordinary, declared, type, _, _, rfl, rfl⟩
  · exact ⟨⟨rfl, rfl, by simp [isTypename]⟩, rfl, fun _ impossible => nomatch impossible⟩
  · refine ⟨⟨rfl, rfl, by simp [ordinary]⟩, rfl, ?_⟩
    intro inner isInner
    obtain ⟨block, _, same⟩ := Option.map_eq_some_iff.mp isInner
    exact ⟨block, same.symm⟩

theorem name_of_resolve {key : String} {pick : Pick} {field : ModelField} {inner : ModelSite}
    (resolved : context.resolve site key pick = .ok (field, some inner)) :
    inner.name = nestedModel site.name key := by
  obtain ⟨isField, _, isNested⟩ := spec_of_resolve resolved
  obtain ⟨block, rfl⟩ := isNested inner rfl
  exact congrArg (nestedModel site.name) isField.name_eq

/-! ## Names that are taken -/

theorem Fills.keeps (fills : context.Fills site picks made fields after) {name : String}
    {model : Model} (present : made.get? name = some model) : after.get? name = some model := by
  induction fills with
  | nil => exact present
  | leaf _ _ ih => exact ih present
  | @nested site inner key pick rest made half after field innerFields fields entries _ fresh _ _ _
      ihInside ihFurther =>
    have other : name ≠ inner.name := by
      rintro rfl
      rw [fresh] at present
      cases present
    apply ihFurther
    rw [Table.get?_insert_of_ne _ _ other]
    exact ihInside present

/-- A name that is new lies under a nested name that is taken too. -/
theorem Fills.added (fills : context.Fills site picks made fields after) {name : String}
    (present : (after.get? name).isSome) :
    (made.get? name).isSome ∨ ∃ key, Under (nestedModel site.name key) name ∧
      (after.get? (nestedModel site.name key)).isSome := by
  induction fills generalizing name with
  | nil => exact Or.inl present
  | leaf _ _ ih => exact ih present
  | @nested site inner key pick rest made half after field innerFields fields entries resolved _ _ _
      further ihInside ihFurther =>
    have isInner := name_of_resolve resolved
    have innerTaken : (after.get? (nestedModel site.name key)).isSome := by
      rw [← isInner, further.keeps (Table.get?_insert_self _ _ _)]
      rfl
    rcases ihFurther present with before | below
    · rw [Table.get?_insert] at before
      split at before
      · next same =>
        refine Or.inr ⟨key, ?_, innerTaken⟩
        rw [same, isInner]
        exact under_self _
      · rcases ihInside before with early | ⟨innerKey, under, _⟩
        · exact Or.inl early
        · refine Or.inr ⟨key, ?_, innerTaken⟩
          rw [← isInner]
          exact (under_nestedModel _ _).trans under
    · exact Or.inr below

/-- A name that lies under no nested name is as it was. -/
theorem Fills.unchanged (fills : context.Fills site picks made fields after) {name : String}
    (aside : ∀ key, ¬Under (nestedModel site.name key) name) :
    after.get? name = made.get? name := by
  refine Table.get?_eq_of_keeps (fun _ => fills.keeps) fun present => ?_
  rcases fills.added present with early | ⟨key, under, _⟩
  · exact early
  · exact absurd under (aside key)

theorem Fills.own_name (fills : context.Fills site picks made fields after) :
    after.get? site.name = made.get? site.name :=
  fills.unchanged fun _ under => ne_of_under_nestedModel under rfl

theorem Makes.keeps (makes : context.Makes site made after) {name : String} {model : Model}
    (present : made.get? name = some model) : after.get? name = some model := by
  obtain ⟨fresh, entries, fields, half, _, fills, rfl⟩ := makes
  have other : name ≠ site.name := by
    rintro rfl
    rw [fresh] at present
    cases present
  rw [Table.get?_insert_of_ne _ _ other]
  exact fills.keeps present

theorem Makes.taken (makes : context.Makes site made after) : (after.get? site.name).isSome := by
  obtain ⟨_, entries, fields, half, _, _, rfl⟩ := makes
  rw [Table.get?_insert_self]
  rfl

theorem Makes.added (makes : context.Makes site made after) {name : String}
    (present : (after.get? name).isSome) :
    (made.get? name).isSome ∨ Under site.name name := by
  obtain ⟨_, entries, fields, half, _, fills, rfl⟩ := makes
  rw [Table.get?_insert] at present
  split at present
  · next same => exact Or.inr (same ▸ under_self name)
  · rcases fills.added present with before | ⟨key, under, _⟩
    · exact Or.inl before
    · exact Or.inr ((under_nestedModel _ _).trans under)

theorem Makes.unchanged (makes : context.Makes site made after) {name : String}
    (aside : ¬Under site.name name) : after.get? name = made.get? name := by
  refine Table.get?_eq_of_keeps (fun _ => makes.keeps) fun present => ?_
  exact (makes.added present).resolve_right aside

/-! ## Names that are free -/

/-- No model of a site is made yet. -/
def Clear (site : ModelSite) (made : Table Model) : Prop :=
  ∀ name, Under site.name name → made.get? name = none

/-- A nested name that is free after the fields before it has nothing under it. -/
theorem Clear.nested (clear : Clear site made)
    (fills : context.Fills site picks made fields after) {inner : ModelSite} {key : String}
    (isInner : inner.name = nestedModel site.name key) (fresh : after.get? inner.name = none) :
    Clear inner after := by
  intro name under
  rw [isInner] at under fresh
  cases now : after.get? name with
  | none => rfl
  | some model =>
    have present : (after.get? name).isSome := by rw [now]; rfl
    rcases fills.added present with before | ⟨other, lies, taken⟩
    · rw [clear name ((under_nestedModel site.name key).trans under)] at before
      cases before
    · rw [← nestedModel_eq_of_under under lies, fresh] at taken
      cases taken

/-- Every model belongs to one whose name has no underscore. -/
def Rooted (made : Table Model) : Prop :=
  ∀ name, (made.get? name).isSome → ∃ root, '_' ∉ root.toList ∧ Under root name ∧
    (made.get? root).isSome

theorem rooted_empty : Rooted ∅ := by
  intro name present
  cases present

theorem Rooted.makes (rooted : Rooted made) (makes : context.Makes site made after)
    (plain : '_' ∉ site.name.toList) : Rooted after := by
  intro name present
  rcases makes.added present with before | under
  · obtain ⟨root, plainRoot, under, taken⟩ := rooted name before
    obtain ⟨model, found⟩ := Option.isSome_iff_exists.mp taken
    refine ⟨root, plainRoot, under, ?_⟩
    rw [makes.keeps found]
    rfl
  · exact ⟨site.name, plain, under, makes.taken⟩

theorem Rooted.clear (rooted : Rooted made) (plain : '_' ∉ site.name.toList)
    (fresh : made.get? site.name = none) : Clear site made := by
  intro name under
  cases now : made.get? name with
  | none => rfl
  | some model =>
    obtain ⟨root, plainRoot, underRoot, taken⟩ := rooted name (by rw [now]; rfl)
    rw [eq_of_under plainRoot plain underRoot under, fresh] at taken
    cases taken

/-- The definitions that select something are named operations of a kind with a root type and
fragments on a known type. -/
theorem siteOf_eq_some {definition : Definition}
    (found : context.siteOf definition = .ok (some site)) :
    (∃ operation name root, definition = .operation operation ∧ operation.name? = some name ∧
      context.rootType? operation.kind = some root ∧
      site = ⟨operationModel name operation.kind, root, operation.selections, name,
        .operation operation.kind, []⟩) ∨
    ∃ fragment owner, definition = .fragment fragment ∧
      context.type? fragment.typeCondition = some owner ∧
      site = ⟨fragmentModel fragment.name, owner, fragment.selections, fragment.name,
        .fragment, []⟩ := by
  unfold siteOf at found
  split at found
  · next operation =>
    obtain ⟨inner, isSite, same⟩ := Outcome.map_eq_ok_iff.mp found
    left
    unfold operationSite at isSite
    split at isSite
    · cases isSite
    · next name isName =>
      split at isSite
      · cases isSite
      · next root isRoot =>
        exact ⟨operation, name, root, rfl, isName, isRoot,
          (Option.some.inj same).symm.trans (Except.ok.inj isSite).symm⟩
  · next fragment =>
    obtain ⟨inner, isSite, same⟩ := Outcome.map_eq_ok_iff.mp found
    right
    obtain ⟨owner, known, isInner⟩ := Outcome.bind_eq_ok_iff.mp isSite
    exact ⟨fragment, owner, rfl, requireType_eq_ok_iff.mp known,
      (Option.some.inj same).symm.trans (Except.ok.inj isInner).symm⟩
  · cases found

theorem path_of_siteOf {definition : Definition}
    (found : context.siteOf definition = .ok (some site)) : site.path = [] := by
  rcases siteOf_eq_some found with ⟨_, _, _, _, _, _, rfl⟩ | ⟨_, _, _, _, rfl⟩
  · rfl
  · rfl

theorem not_mem_siteOf {definition : Definition}
    (found : context.siteOf definition = .ok (some site)) : '_' ∉ site.name.toList := by
  rcases siteOf_eq_some found with ⟨_, _, _, _, _, _, rfl⟩ | ⟨_, _, _, _, rfl⟩
  · exact not_mem_operationModel _ _
  · exact not_mem_fragmentModel _

theorem MakesAll.keeps {definitions : List Definition}
    (makes : context.MakesAll definitions made after) {name : String} {model : Model}
    (present : made.get? name = some model) : after.get? name = some model := by
  induction makes with
  | nil => exact present
  | skip _ _ ih => exact ih present
  | site _ makes _ ih => exact ih (makes.keeps present)

/-- A definition whose models are made selects nothing, or its site is made at some point. -/
theorem MakesAll.makes_of_mem {definitions : List Definition}
    (makes : context.MakesAll definitions made after) {definition : Definition}
    (member : definition ∈ definitions) :
    context.siteOf definition = .ok none ∨ ∃ site half next,
      context.siteOf definition = .ok (some site) ∧ context.Makes site half next ∧
      ∀ name model, next.get? name = some model → after.get? name = some model := by
  induction makes with
  | nil => cases member
  | skip nothing _ ih =>
    rcases List.mem_cons.mp member with rfl | later
    · exact Or.inl nothing
    · exact ih later
  | @site _ _ made half _ site found makes further ih =>
    rcases List.mem_cons.mp member with rfl | later
    · exact Or.inr ⟨site, made, half, found, makes, fun _ _ => further.keeps⟩
    · exact ih later

end ChainedSdk.Context
