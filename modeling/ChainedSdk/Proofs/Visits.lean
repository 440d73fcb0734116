import ChainedSdk.Proofs.DataTypes
import ChainedSdk.Proofs.ModelTable
import ChainedSdk.Schema.Build
import Mathlib
/-!
# Visiting the models

The data types of models can be found by visiting: from every root selection down into the fields,
each step adding an index to the type. Over extracted models this meets every model exactly once, and
the types that it gives are those of the table of data types, which is filled backwards.
-/

namespace ChainedSdk

/-- The model that a field refers to, with its data type inside that of the model around it. -/
def ModelField.visit? (field : ModelField) (table : Table Model) (around : String) :
    Option (Model × String) :=
  (field.model?.bind table.get?).map fun inner =>
    (inner, nestedDataType around field.name field.isList)

/-- The models that are visited, with their data types, from some models on that are still to be
visited with theirs. -/
inductive Visits (table : Table Model) : List (Model × String) → List (Model × String) → Prop
  | done : Visits table [] []
  | next {entry : Model × String} {pending visited : List (Model × String)}
      (further : Visits table
        (entry.1.fields.filterMap (·.visit? table entry.2) ++ pending) visited) :
      Visits table (entry :: pending) (entry :: visited)

/-- A model with the data type that its place has. -/
inductive Typed (models : List Model) : Model × String → Prop
  | root {root : Model} (member : root ∈ models) (isRoot : root.isRoot) :
      Typed models (root, documentsMember root.name)
  | field {entry inner : Model × String} {field : ModelField} (typed : Typed models entry)
      (member : field ∈ entry.1.fields)
      (visited : field.visit? (modelTable models) entry.2 = some inner) : Typed models inner

variable {context : Context} {sites : List ModelSite} {models : List Model}
  {entry : Model × String} {pending visited : List (Model × String)}

/-! ## Which models are visited -/

theorem Visits.unique {table : Table Model} {others : List (Model × String)}
    (visits : Visits table pending visited) (again : Visits table pending others) :
    visited = others := by
  induction visits generalizing others with
  | done =>
    cases again
    rfl
  | next _ ih =>
    cases again with
    | next further => rw [ih further]

namespace Context

/-- The fields of a model are visited in the order of the sites inside it. -/
theorem Shows.visit {table : Table Model} {site : ModelSite} {model : Model}
    {nested : List ModelSite} (shows_ : context.Shows site model nested)
    (known : ∀ inner ∈ nested, ∃ found, table.get? inner.name = some found) (type : String) :
    (model.fields.filterMap (·.visit? table type)).map (fun entry => some entry.1) =
      nested.map fun inner => table.get? inner.name := by
  have present : ∀ name ∈ model.references, ∃ found, table.get? name = some found := by
    intro name isReference
    rw [shows_.references_eq] at isReference
    obtain ⟨inner, member, rfl⟩ := List.mem_map.mp isReference
    exact known inner member
  have names : nested.map (fun inner => table.get? inner.name) =
      model.references.map table.get? := by
    rw [shows_.references_eq, List.map_map]
    rfl
  rw [names, Model.references, List.map_filterMap, List.map_filterMap]
  apply List.filterMap_congr
  intro field isField
  cases isModel : field.model? with
  | none => simp [ModelField.visit?, isModel]
  | some name =>
    obtain ⟨found, isFound⟩ := present name (List.mem_filterMap.mpr ⟨field, isField, isModel⟩)
    simp [ModelField.visit?, isModel, isFound]

theorem Lists.visits {table : Table Model} (lists : context.Lists sites models)
    (known : ∀ model ∈ models, table.get? model.name = some model)
    {entries : List (Model × String)}
    (heads : entries.map (fun entry => some entry.1) = sites.map fun site => table.get? site.name)
    (further : Visits table pending visited) :
    ∃ new, Visits table (entries ++ pending) (new ++ visited) ∧ (new.map Prod.fst).Perm models := by
  induction lists generalizing entries pending visited with
  | nil =>
    have empty : entries = [] := List.map_eq_nil_iff.mp heads
    rw [empty]
    exact ⟨[], further, .nil⟩
  | @site site model nested rest inside later shows_ before _ ihInside ihLater =>
    cases entries with
    | nil => cases heads
    | cons entry others =>
      rw [List.map_cons, List.map_cons] at heads
      obtain ⟨atHead, atRest⟩ := List.cons.inj heads
      have isModel : entry.1 = model := by
        have present := known model (by simp)
        have named : model.name = site.name := by
          rw [shows_.model_eq]
          rfl
        rw [named, ← atHead] at present
        exact Option.some.inj present
      have knownInside : ∀ inner ∈ inside, table.get? inner.name = some inner :=
        fun inner member => known inner (by simp [member])
      obtain ⟨newLater, visitsLater, permLater⟩ :=
        ihLater (fun inner member => known inner (by simp [member])) atRest further
      have knownSites : ∀ inner ∈ nested, ∃ found, table.get? inner.name = some found := by
        intro inner member
        obtain ⟨found, isFound, _, innerShows⟩ := before.exists_model member
        have named : found.name = inner.name := by
          rw [innerShows.model_eq]
          rfl
        exact ⟨found, named ▸ knownInside found isFound⟩
      have headsInside := shows_.visit knownSites entry.2
      obtain ⟨newInside, visitsInside, permInside⟩ :=
        ihInside knownInside headsInside visitsLater
      refine ⟨entry :: (newInside ++ newLater), ?_, ?_⟩
      · rw [← isModel] at visitsInside
        rw [List.cons_append, List.cons_append, List.append_assoc]
        exact .next visitsInside
      · rw [List.map_cons, List.map_append, isModel]
        exact ((permInside.append permLater).cons model).trans List.perm_middle.symm

end Context

/-! ## Which types they have -/

theorem Visits.typed (visits : Visits (modelTable models) pending visited)
    (start : ∀ entry ∈ pending, Typed models entry) : ∀ entry ∈ visited, Typed models entry := by
  induction visits with
  | done =>
    intro _ impossible
    cases impossible
  | @next entry pending visited _ ih =>
    have isTyped := start entry List.mem_cons_self
    apply List.forall_mem_cons.mpr ⟨isTyped, ih _⟩
    intro other member
    rcases List.mem_append.mp member with isInside | isPending
    · obtain ⟨field, isField, found⟩ := List.mem_filterMap.mp isInside
      exact .field isTyped isField found
    · exact start other (List.mem_cons_of_mem _ isPending)

namespace Context.Postorder

variable (ordered : context.Postorder sites models)

include ordered

end Context.Postorder

/-- The models that are still to be visited in the beginning: the root selections. -/
def rootEntries (models : List Model) : List (Model × String) :=
  (models.filter (·.isRoot)).map fun root => (root, documentsMember root.name)

theorem Context.Postorder.visits (ordered : context.Postorder sites models) : ∃ visited,
    Visits (modelTable models) (rootEntries models) visited ∧
      (visited.map Prod.fst).Perm models := by
  have known : ∀ model ∈ models, (modelTable models).get? model.name = some model :=
    fun model member => (get?_modelTable_iff ordered.distinct).mpr ⟨member, rfl⟩
  have found : sites.map (fun site => (modelTable models).get? site.name) =
      (sites.map (·.name)).map (modelTable models).get? := by
    rw [List.map_map]
    rfl
  have heads : (rootEntries models).map (fun entry => some entry.1) =
      sites.map fun site => (modelTable models).get? site.name := by
    rw [found, ordered.root_names, rootEntries, List.map_map, List.map_map]
    apply List.map_congr_left
    intro root isRoot
    exact (known root (List.mem_of_mem_filter isRoot)).symm
  obtain ⟨visited, visits, once⟩ := ordered.lists.visits known heads .done
  rw [List.append_nil, List.append_nil] at visits
  exact ⟨visited, visits, once⟩

namespace Model

end Model

end ChainedSdk
