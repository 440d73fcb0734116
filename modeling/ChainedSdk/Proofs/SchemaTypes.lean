import ChainedSdk.Schema.Build
import ChainedSdk.Proofs.Outcomes
import ChainedSdk.Proofs.Tables
/-!
# Types under their own names

Every type of a finished context stands under its own name, so a type that was found once is found
again by the name it carries.
-/

namespace ChainedSdk

/-- Every type stands under its own name. -/
def OwnNames (types : Table TypeDescriptor) : Prop :=
  ∀ name type, types.get? name = some type → type.name = name

theorem OwnNames.insert {types : Table TypeDescriptor} (own : OwnNames types) {name : String}
    {type : TypeDescriptor} (same : type.name = name) : OwnNames (types.insert name type) := by
  intro other found isFound
  rw [Table.get?_insert] at isFound
  split at isFound
  · next isName =>
    cases isFound
    rw [isName]
    exact same
  · exact own other found isFound

namespace SchemaDraft

variable {scalars : ScalarTypes} {draft after : SchemaDraft} {type extended : TypeDescriptor}

theorem name_extend {extension : TypeExtension} (done : extend type extension = .ok extended) :
    extended.name = type.name := by
  unfold extend at done
  split at done
  · cases done
    rfl
  · cases done
    rfl
  · cases done
    rfl
  · obtain ⟨_, _, same⟩ := Outcome.bind_eq_ok_iff.mp done
    cases same
    rfl
  · obtain ⟨_, _, same⟩ := Outcome.bind_eq_ok_iff.mp done
    cases same
    rfl
  · obtain ⟨_, _, same⟩ := Outcome.bind_eq_ok_iff.mp done
    cases same
    rfl

theorem name_extendAll {extensions : List TypeExtension}
    (done : extensions.foldlM extend type = .ok extended) : extended.name = type.name :=
  Outcome.foldlM_keeps (fun state => state.name = type.name) rfl
    (fun _ _ _ _ same stepped => (name_extend stepped).trans same) done

theorem ownNames_initial (scalars : ScalarTypes) : OwnNames (initial scalars).types := by
  intro name type found
  rcases Table.get?_insertAll_mem _ found with isEntry | impossible
  · obtain ⟨entry, _, same⟩ := List.mem_map.mp isEntry
    cases same
    rfl
  · cases impossible

theorem ownNames_register (own : OwnNames draft.types) (done : draft.register type = .ok after) :
    OwnNames after.types := by
  unfold register at done
  split at done
  · cases done
  · obtain ⟨extended, isExtended, same⟩ := Outcome.bind_eq_ok_iff.mp done
    cases same
    exact own.insert (name_extendAll isExtended)

theorem ownNames_addExtension (own : OwnNames draft.types) {extension : TypeExtension}
    (done : draft.addExtension extension = .ok after) : OwnNames after.types := by
  unfold addExtension at done
  split at done
  · next type found =>
    obtain ⟨extended, isExtended, same⟩ := Outcome.bind_eq_ok_iff.mp done
    cases same
    exact own.insert ((name_extend isExtended).trans (own _ _ found))
  · cases done
    exact own

theorem ownNames_add (own : OwnNames draft.types) {definition : Definition}
    (done : draft.add scalars definition = .ok after) : OwnNames after.types := by
  unfold add at done
  split at done
  · obtain ⟨described, _, registered⟩ := Outcome.bind_eq_ok_iff.mp done
    exact ownNames_register own registered
  · cases done
    exact own
  · exact ownNames_addExtension own done
  · cases done
    exact own
  · cases done
    exact own
  all_goals
    cases done
    exact own

theorem ownNames_ofDocument {document : Document} (done : ofDocument scalars document = .ok draft) :
    OwnNames draft.types :=
  Outcome.foldlM_keeps (fun state => OwnNames state.types) (ownNames_initial scalars)
    (fun _ _ _ _ own stepped => ownNames_add own stepped) done

end SchemaDraft

namespace Context

variable {schema : Document} {documents : List DocumentFile} {config : Config} {context : Context}

theorem ownNames_ofDocument (built : Context.ofDocument schema documents config = .ok context) :
    OwnNames context.types := by
  obtain ⟨draft, drafted, checked⟩ := Outcome.bind_eq_ok_iff.mp built
  obtain ⟨_, _, rooted⟩ := Outcome.bind_eq_ok_iff.mp checked
  obtain ⟨_, _, referred⟩ := Outcome.bind_eq_ok_iff.mp rooted
  obtain ⟨_, _, collected⟩ := Outcome.bind_eq_ok_iff.mp referred
  obtain ⟨_, _, same⟩ := Outcome.bind_eq_ok_iff.mp collected
  cases same
  exact SchemaDraft.ownNames_ofDocument drafted

end Context

end ChainedSdk
