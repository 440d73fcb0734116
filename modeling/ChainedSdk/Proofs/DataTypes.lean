import ChainedSdk.Proofs.Postorder
import ChainedSdk.Sdk.DataType
/-!
# Every model has a data type

The models of nested selections are made before the model around them, so in the order of
extraction every model but a root selection is held by a later one. Going backwards, its data type
is known by the time it is reached.
-/

namespace ChainedSdk

/-- A field of the model holds the data of the model with a name. -/
def Model.Holds (model : Model) (name : String) : Prop :=
  ∃ field ∈ model.fields, field.model? = some name

/-- Every model is a root selection, or has one of some names, or is held by a later one. -/
inductive Enclosed (names : List String) : List Model → Prop
  | nil : Enclosed names []
  | cons {model : Model} {later : List Model}
      (around : model.isRoot ∨ model.name ∈ names ∨ ∃ outer ∈ later, outer.Holds model.name)
      (rest : Enclosed names later) : Enclosed names (model :: later)

theorem Enclosed.append {names more : List String} {models later : List Model}
    (first : Enclosed names models) (second : Enclosed more later)
    (closes : ∀ name ∈ names, name ∈ more ∨ ∃ outer ∈ later, outer.Holds name) :
    Enclosed more (models ++ later) := by
  induction first with
  | nil => exact second
  | cons around _ ih =>
    refine .cons ?_ ih
    rcases around with isRoot | named | ⟨outer, isLater, holds⟩
    · exact Or.inl isRoot
    · rcases closes _ named with stillNamed | ⟨outer, isLater, holds⟩
      · exact Or.inr (Or.inl stillNamed)
      · exact Or.inr (Or.inr ⟨outer, List.mem_append_right _ isLater, holds⟩)
    · exact Or.inr (Or.inr ⟨outer, List.mem_append_left _ isLater, holds⟩)

/-- Models in post-order are enclosed, but for those of the outermost sites. -/
theorem Context.Lists.enclosed {context : Context} {sites : List ModelSite} {models : List Model}
    (lists : context.Lists sites models) {names : List String}
    (outermost : ∀ site ∈ sites, site.path = [] ∨ site.name ∈ names) : Enclosed names models := by
  induction lists generalizing names with
  | nil => exact .nil
  | @site site model nested rest inside later shows_ _ _ ihInside ihLater =>
    have within := ihInside fun _ member => Or.inr (List.mem_map_of_mem (f := (·.name)) member)
    have further := ihLater fun _ member => outermost _ (List.mem_cons_of_mem _ member)
    have around : model.isRoot ∨ model.name ∈ names := by
      rw [shows_.model_eq]
      exact (outermost site List.mem_cons_self).imp List.isEmpty_iff.mpr id
    apply within.append (.cons (around.imp_right Or.inl) further)
    intro name isNested
    rw [← shows_.references_eq] at isNested
    obtain ⟨field, isField, holds⟩ := List.mem_filterMap.mp isNested
    exact Or.inr ⟨model, List.mem_cons_self, field, isField, holds⟩

/-! ## Data types backwards -/

theorem dataTypes_cons (model : Model) (later : List Model) :
    dataTypes (model :: later) = addDataTypes (dataTypes later) model := by
  rw [dataTypes, dataTypes, List.reverse_cons, List.foldl_append]
  rfl

/-- A known data type stays known, and one that the model gives becomes known. -/
theorem contains_addDataTypes {known : Table String} {model : Model} {name : String}
    (before : known.contains name ∨
      ((model.dataType? known).isSome ∧ (name = model.name ∨ model.Holds name))) :
    (addDataTypes known model).contains name := by
  unfold addDataTypes
  cases found : model.dataType? known with
  | none =>
    rw [found] at before
    exact before.resolve_right fun impossible => nomatch impossible.1
  | some dataType =>
    refine Table.isSome_get?_insertAll _ ?_
    rcases before with isKnown | ⟨_, rfl | ⟨field, isField, holds⟩⟩
    · refine Or.inr ?_
      rw [Table.get?_insert]
      split
      · rfl
      · exact isKnown
    · refine Or.inr ?_
      rw [Table.get?_insert_self]
      rfl
    · refine Or.inl (List.mem_map.mpr ⟨(name, nestedDataType dataType field.name field.isList),
        List.mem_filterMap.mpr ⟨field, isField, ?_⟩, rfl⟩)
      rw [holds]
      rfl

/-- Where every model is a root selection or held by a later one, every model and every model that
one of them holds has a data type. -/
theorem Enclosed.contains_dataTypes {models : List Model} (enclosed : Enclosed [] models)
    {model : Model} (member : model ∈ models) :
    (dataTypes models).contains model.name ∧
      ∀ name, model.Holds name → (dataTypes models).contains name := by
  induction enclosed generalizing model with
  | nil => cases member
  | @cons first later around _ ih =>
    rw [dataTypes_cons]
    rcases List.mem_cons.mp member with rfl | isLater
    · have given : (model.dataType? (dataTypes later)).isSome := by
        unfold Model.dataType?
        split
        · rfl
        · next nested =>
          rcases around with isRoot | impossible | ⟨outer, isOuter, holds⟩
          · exact absurd isRoot nested
          · cases impossible
          · exact (ih isOuter).2 _ holds
      exact ⟨contains_addDataTypes (Or.inr ⟨given, Or.inl rfl⟩),
        fun _ holds => contains_addDataTypes (Or.inr ⟨given, Or.inr holds⟩)⟩
    · exact ⟨contains_addDataTypes (Or.inl (ih isLater).1),
        fun _ holds => contains_addDataTypes (Or.inl ((ih isLater).2 _ holds))⟩

end ChainedSdk
