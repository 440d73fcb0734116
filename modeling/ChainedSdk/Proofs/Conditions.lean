import ChainedSdk.Proofs.Places
import ChainedSdk.Proofs.SchemaTypes
/-!
# Selections under type conditions

Where a selection stands inside inline fragments and spread fragments, it is made only in objects
that all type conditions around it admit. Extraction puts the fragments in place and keeps no
conditions. In valid documents this changes no shape: selections under one response key have one
shape, and an object type has the fields of every type that admits it, none of them weaker.
-/

namespace ChainedSdk

/-- Whether values of a type can be objects of an object type. -/
def TypeDescriptor.Admits (type object : TypeDescriptor) : Prop :=
  object.kind = .object ∧
    match type.kind with
    | .object => object = type
    | .interface => type.name ∈ object.interfaces
    | .union => object.name ∈ type.members
    | .scalar | .enum | .input => False

/-- The field of a type that a selection means; every type has the field of its name. -/
def TypeDescriptor.selectable? (type : TypeDescriptor) (name : String) : Option FieldDescriptor :=
  if name = typenameField then some ⟨typenameField, "String", false, false, none⟩
  else type.field? name

theorem OwnNames.type?_eq_some {context : Context} (own : OwnNames context.types) {name : String}
    {type : TypeDescriptor} (found : context.type? name = some type) :
    context.type? type.name = some type := by
  rw [own name type found]
  exact found

namespace Context

/-! ## Shapes of fields -/

/-- Whether the items that a field holds are leaves. -/
def OfLeaf (context : Context) (field : FieldDescriptor) : Prop :=
  ∃ type, context.type? field.typeName = some type ∧ type.isLeaf

/-- Whether two fields have one shape in responses. Composite items may be of different types. -/
structure SameShape (context : Context) (first second : FieldDescriptor) : Prop where
  isOptional_eq : first.isOptional = second.isOptional
  isList_eq : first.isList = second.isList
  typeName_eq : context.OfLeaf first ∨ context.OfLeaf second → first.typeName = second.typeName

/-- Whether a field can stand for another one that is declared by an interface. -/
structure Refines (context : Context) (field declared : FieldDescriptor) : Prop where
  isOptional : declared.isOptional = false → field.isOptional = false
  isList_eq : field.isList = declared.isList
  typeName_eq : context.OfLeaf declared → field.typeName = declared.typeName

theorem Refines.refl (context : Context) (field : FieldDescriptor) :
    context.Refines field field := ⟨id, rfl, fun _ => rfl⟩

/-- Whether a field holds a leaf of some type that is never missing. -/
structure Present (context : Context) (field : FieldDescriptor) (typeName : String) : Prop where
  isOptional : field.isOptional = false
  isList : field.isList = false
  typeName_eq : field.typeName = typeName
  ofLeaf : context.OfLeaf field

variable {context : Context} {first second field declared : FieldDescriptor} {typeName : String}

theorem Present.of_sameShape (present : context.Present first typeName)
    (same : context.SameShape first second) : context.Present second typeName := by
  have named : second.typeName = first.typeName := (same.typeName_eq (Or.inl present.ofLeaf)).symm
  refine ⟨?_, ?_, named.trans present.typeName_eq, ?_⟩
  · rw [← same.isOptional_eq]
    exact present.isOptional
  · rw [← same.isList_eq]
    exact present.isList
  · rw [OfLeaf, named]
    exact present.ofLeaf

theorem Present.of_refines (present : context.Present declared typeName)
    (refines : context.Refines field declared) : context.Present field typeName := by
  have named := refines.typeName_eq present.ofLeaf
  refine ⟨refines.isOptional present.isOptional, ?_, named.trans present.typeName_eq, ?_⟩
  · rw [refines.isList_eq]
    exact present.isList
  · rw [OfLeaf, named]
    exact present.ofLeaf

/-! ## Conditions -/

/-- A field with its block that stands in a selection set once all fragments are in place, and the
types of the conditions around it, the outermost first. -/
inductive Stands (context : Context) :
    TypeDescriptor → List Selection → List TypeDescriptor → Pick → Prop
  | field {owner : TypeDescriptor} {selections : List Selection} {head : FieldHead}
      {selections? : Option (List Selection)} (member : .field head selections? ∈ selections) :
      Stands context owner selections [] { head, selections?, owner }
  | inlineFragment {owner : TypeDescriptor} {selections inner : List Selection}
      {directives : List Directive} {conditions : List TypeDescriptor} {pick : Pick}
      (member : .inlineFragment none directives inner ∈ selections)
      (inside : Stands context owner inner conditions pick) :
      Stands context owner selections conditions pick
  | condition {owner type : TypeDescriptor} {selections inner : List Selection} {name : String}
      {directives : List Directive} {conditions : List TypeDescriptor} {pick : Pick}
      (member : .inlineFragment (some name) directives inner ∈ selections)
      (known : context.type? name = some type)
      (inside : Stands context type inner conditions pick) :
      Stands context owner selections (type :: conditions) pick
  | spread {owner type : TypeDescriptor} {selections : List Selection} {name : String}
      {directives : List Directive} {fragment : FragmentDefinition}
      {conditions : List TypeDescriptor} {pick : Pick}
      (member : .spread name directives ∈ selections)
      (found : context.fragments.get? name = some fragment)
      (known : context.type? fragment.typeCondition = some type)
      (inside : Stands context type fragment.selections conditions pick) :
      Stands context owner selections (type :: conditions) pick

variable {owner : TypeDescriptor} {selections : List Selection} {conditions : List TypeDescriptor}
  {pick : Pick}

theorem Stands.mono {more : List Selection} (subset : selections ⊆ more)
    (stands : context.Stands owner selections conditions pick) :
    context.Stands owner more conditions pick := by
  cases stands with
  | field member => exact .field (subset member)
  | inlineFragment member inside => exact .inlineFragment (subset member) inside
  | condition member known inside => exact .condition (subset member) known inside
  | spread member found known inside => exact .spread (subset member) found known inside

/-- What is put in place has stood somewhere. -/
theorem Inlines.exists_stands {entries : List (String × Pick)}
    (inlines : context.Inlines owner selections entries) {key : String}
    (member : (key, pick) ∈ entries) :
    pick.head.key = key ∧ ∃ conditions, context.Stands owner selections conditions pick := by
  induction inlines with
  | nil => cases member
  | @field owner head selections? rest later _ ih =>
    rcases List.mem_cons.mp member with here | further
    · cases here
      exact ⟨rfl, [], .field List.mem_cons_self⟩
    · obtain ⟨isKey, conditions, stands⟩ := ih further
      exact ⟨isKey, conditions, stands.mono (List.subset_cons_self _ _)⟩
  | @inlineFragment owner innerOwner condition? directives selections rest inner later known _ _
      ihInside ihLater =>
    rcases List.mem_append.mp member with inside | further
    · obtain ⟨isKey, conditions, stands⟩ := ihInside inside
      cases condition? with
      | none =>
        cases known
        exact ⟨isKey, conditions, .inlineFragment List.mem_cons_self stands⟩
      | some name =>
        exact ⟨isKey, innerOwner :: conditions, .condition List.mem_cons_self known stands⟩
    · obtain ⟨isKey, conditions, stands⟩ := ihLater further
      exact ⟨isKey, conditions, stands.mono (List.subset_cons_self _ _)⟩
  | @spread owner fragmentOwner name directives fragment rest inner later found known _ _ ihInside
      ihLater =>
    rcases List.mem_append.mp member with inside | further
    · obtain ⟨isKey, conditions, stands⟩ := ihInside inside
      exact ⟨isKey, fragmentOwner :: conditions, .spread List.mem_cons_self found known stands⟩
    · obtain ⟨isKey, conditions, stands⟩ := ihLater further
      exact ⟨isKey, conditions, stands.mono (List.subset_cons_self _ _)⟩

/-- An object that all conditions around a field admit is admitted by the type whose field it is. -/
theorem Stands.admits (stands : context.Stands owner selections conditions pick)
    {object : TypeDescriptor} (admitted : owner.Admits object)
    (all : ∀ condition ∈ conditions, condition.Admits object) : pick.owner.Admits object := by
  induction stands with
  | field _ => exact admitted
  | inlineFragment _ _ ih => exact ih admitted all
  | condition _ _ _ ih =>
    obtain ⟨first, further⟩ := List.forall_mem_cons.mp all
    exact ih first further
  | spread _ _ _ _ ih =>
    obtain ⟨first, further⟩ := List.forall_mem_cons.mp all
    exact ih first further

theorem Stands.known (stands : context.Stands owner selections conditions pick)
    (own : OwnNames context.types) (known : context.type? owner.name = some owner) :
    context.type? pick.owner.name = some pick.owner := by
  induction stands with
  | field _ => exact known
  | inlineFragment _ _ ih => exact ih known
  | condition _ found _ ih => exact ih (own.type?_eq_some found)
  | spread _ _ found _ ih => exact ih (own.type?_eq_some found)

theorem Stands.of_field {head : FieldHead} {selections? : Option (List Selection)}
    (stands : context.Stands owner [.field head selections?] conditions pick) :
    conditions = [] ∧ pick = { head, selections?, owner } := by
  cases stands with
  | field member =>
    cases List.mem_singleton.mp member
    exact ⟨rfl, rfl⟩
  | inlineFragment member _ => cases List.mem_singleton.mp member
  | condition member _ _ => cases List.mem_singleton.mp member
  | spread member _ _ _ => cases List.mem_singleton.mp member

theorem Stands.of_condition {name : String} {directives : List Directive} {inner : List Selection}
    (stands : context.Stands owner [.inlineFragment (some name) directives inner] conditions pick) :
    ∃ type further, context.type? name = some type ∧ conditions = type :: further ∧
      context.Stands type inner further pick := by
  cases stands with
  | field member => cases List.mem_singleton.mp member
  | inlineFragment member _ => cases List.mem_singleton.mp member
  | condition member known inside =>
    cases List.mem_singleton.mp member
    exact ⟨_, _, known, rfl, inside⟩
  | spread member _ _ _ => cases List.mem_singleton.mp member

/-! ## Valid schemas and documents -/

/-- Object types have the fields of all types that admit them, none of them weaker. -/
def Covariant (context : Context) : Prop :=
  ∀ type object, context.type? type.name = some type → context.type? object.name = some object →
    type.Admits object → ∀ name declared, type.field? name = some declared →
      ∃ field, object.field? name = some field ∧ context.Refines field declared

/-- The selection sets of an operation or a fragment, each with the type that it selects from. -/
def definitionPlaces (context : Context) (definition : Definition) : List Place :=
  let whole (owner? : Option TypeDescriptor) (selections : List Selection) : List Place :=
    owner?.toList.flatMap fun owner => (owner, selections) :: context.places owner selections
  match definition with
  | .operation operation => whole (context.rootType? operation.kind) operation.selections
  | .fragment fragment => whole (context.type? fragment.typeCondition) fragment.selections
  | _ => []

/-- The selection sets of some documents and of all fragments. -/
def documentPlaces (context : Context) (documents : List DocumentFile) : List Place :=
  (definitionsOf documents).flatMap context.definitionPlaces ++ context.fragmentPlaces

/-- Whether every field that is selected in a place is declared, and those under one response key
have one shape. -/
structure ValidPlace (context : Context) (place : Place) : Prop where
  declared : ∀ conditions pick, context.Stands place.1 place.2 conditions pick →
    ∃ field, pick.owner.selectable? pick.head.name = some field
  sameShape : ∀ conditions pick others other,
    context.Stands place.1 place.2 conditions pick → context.Stands place.1 place.2 others other →
    pick.head.key = other.head.key → ∀ first second,
      pick.owner.selectable? pick.head.name = some first →
      other.owner.selectable? other.head.name = some second → context.SameShape first second

theorem covariant_of_no_interface (plain : ∀ name type, context.type? name = some type →
    type.kind ≠ .interface ∧ (type.kind = .union → type.fields = [])) : context.Covariant := by
  intro type object known _ admits name declared isField
  obtain ⟨noInterface, ofUnion⟩ := plain _ _ known
  obtain ⟨_, admits⟩ := admits
  split at admits
  · rw [admits]
    exact ⟨declared, isField, .refl context declared⟩
  · next isInterface => exact absurd isInterface noInterface
  · next isUnion =>
    rw [TypeDescriptor.field?, ofUnion isUnion] at isField
    cases isField
  all_goals cases admits

/-- A place with one field is valid where the field is declared. -/
theorem validPlace_of_single {place : Place} (single : ∀ conditions other,
    context.Stands place.1 place.2 conditions other → other = pick)
    (isField : pick.owner.selectable? pick.head.name = some field) : context.ValidPlace place where
  declared := by
    intro conditions other stands
    rw [single conditions other stands]
    exact ⟨field, isField⟩
  sameShape := by
    intro conditions other others another stands standsOther _ first second isFirst isSecond
    rw [single conditions other stands, isField] at isFirst
    rw [single others another standsOther, isField] at isSecond
    cases isFirst
    cases isSecond
    exact ⟨rfl, rfl, fun _ => rfl⟩

theorem Covariant.exists_refines (covariant : context.Covariant) {type object : TypeDescriptor}
    (known : context.type? type.name = some type)
    (isObject : context.type? object.name = some object) (admits : type.Admits object)
    {name : String} (isField : type.selectable? name = some declared) :
    ∃ field, object.selectable? name = some field ∧ context.Refines field declared := by
  unfold TypeDescriptor.selectable? at isField ⊢
  by_cases isTypename : name = typenameField
  · rw [if_pos isTypename] at isField ⊢
    cases isField
    exact ⟨_, rfl, .refl context _⟩
  · rw [if_neg isTypename] at isField ⊢
    exact covariant type object known isObject admits name declared isField

/-- What is present under a response key in one selection is present in every object that another
selection under the key is made in. -/
theorem ValidPlace.present (valid : context.ValidPlace (owner, selections))
    (covariant : context.Covariant) (own : OwnNames context.types)
    (known : context.type? owner.name = some owner)
    (stands : context.Stands owner selections conditions pick)
    (isField : pick.owner.selectable? pick.head.name = some first)
    (present : context.Present first typeName) {others : List TypeDescriptor} {other : Pick}
    (standsOther : context.Stands owner selections others other)
    (sameKey : pick.head.key = other.head.key) {object : TypeDescriptor}
    (isObject : context.type? object.name = some object) (admitted : owner.Admits object)
    (all : ∀ condition ∈ others, condition.Admits object) :
    ∃ field, object.selectable? other.head.name = some field ∧ context.Present field typeName := by
  obtain ⟨declared, isDeclared⟩ := valid.declared others other standsOther
  have same := valid.sameShape conditions pick others other stands standsOther sameKey first
    declared isField isDeclared
  obtain ⟨field, isOfObject, refines⟩ := covariant.exists_refines (standsOther.known own known)
    isObject (standsOther.admits admitted all) isDeclared
  exact ⟨field, isOfObject, (present.of_sameShape same).of_refines refines⟩

end Context

end ChainedSdk
