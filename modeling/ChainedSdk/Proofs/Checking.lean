import ChainedSdk.Chain.WellFormed
import ChainedSdk.Proofs.Outcomes
import ChainedSdk.Proofs.Tables
/-!
# What the check accepts

Each part of the check accepts exactly what the matching part of being well-formed says, and so does
the check of a whole forest.
-/

namespace ChainedSdk.Forest

variable {context : Context} {models : Table Model} {above : List String}

theorem checkSiblings_eq_ok_iff {parent? : Option String} {owners : Table String}
    {siblings : List Node} :
    checkSiblings parent? owners siblings = .ok () ↔ DistinctMethods owners.keys siblings := by
  induction siblings generalizing owners with
  | nil =>
    constructor
    · intro _
      exact ⟨List.nodup_nil, fun _ impossible => nomatch impossible⟩
    · intro _
      rfl
  | cons node rest ih =>
    rw [checkSiblings]
    cases found : owners.get? node.method with
    | some owner =>
      constructor
      · intro impossible
        cases impossible
      · intro distinct
        have taken := (Table.mem_keys_iff owners node.method).mpr ⟨owner, found⟩
        exact absurd taken (distinct.2 node List.mem_cons_self)
    | none =>
      have free : node.method ∉ owners.keys := by
        intro member
        obtain ⟨owner, isOwner⟩ := (Table.mem_keys_iff owners node.method).mp member
        rw [found] at isOwner
        cases isOwner
      dsimp only
      rw [ih, Table.keys_insert, if_neg free]
      unfold DistinctMethods
      rw [List.map_cons, List.nodup_cons, List.forall_mem_cons]
      constructor
      · rintro ⟨distinct, apart⟩
        refine ⟨⟨fun again => ?_, distinct⟩, free, fun other member taken => ?_⟩
        · obtain ⟨other, member, same⟩ := List.mem_map.mp again
          refine apart other member (List.mem_append_right _ ?_)
          rw [same]
          exact List.mem_cons_self
        · exact apart other member (List.mem_append_left _ taken)
      · rintro ⟨⟨fresh, distinct⟩, _, apart⟩
        refine ⟨distinct, fun other member taken => ?_⟩
        rcases List.mem_append.mp taken with before | same
        · exact apart other member before
        · exact fresh (List.mem_singleton.mp same ▸ List.mem_map_of_mem member)

theorem checkInherited_eq_ok_iff {operation : String} {inherited : List Inherited} :
    checkInherited context models operation inherited = .ok () ↔
      ∀ entry ∈ inherited, entry.Resolves context models := by
  induction inherited with
  | nil =>
    constructor
    · intro _ _ impossible
      cases impossible
    · intro _
      rfl
  | cons entry rest ih =>
    rw [checkInherited, List.forall_mem_cons, ← ih]
    cases isModel : models.get? entry.model with
    | none =>
      constructor
      · intro impossible
        cases impossible
      · rintro ⟨⟨model, _, _, found, _⟩, _⟩
        rw [isModel] at found
        cases found
    | some model =>
      dsimp only
      cases typed : (model.field? entry.field).bind fun field => context.type? field.type.name with
      | none =>
        constructor
        · intro impossible
          cases impossible
        · rintro ⟨⟨other, field, type, found, isField, known⟩, _⟩
          rw [isModel] at found
          cases found
          rw [isField, Option.bind_some, known] at typed
          cases typed
      | some type =>
        obtain ⟨field, isField, known⟩ := Option.bind_eq_some_iff.mp typed
        exact ⟨fun later => ⟨⟨model, field, type, isModel, isField, known⟩, later⟩, And.right⟩

theorem checkOperation_eq_ok_iff {operation : Operation} :
    checkOperation context models above operation = .ok () ↔
      operation.name ∉ above ∧ (∃ type, context.type? operation.resultType = some type) ∧
        ∀ name ∈ operation.model?, name ∈ models.keys := by
  unfold checkOperation
  by_cases again : operation.name ∈ above
  · rw [if_pos (List.contains_iff_mem.mpr again)]
    constructor
    · intro impossible
      cases impossible
    · intro fine
      exact absurd again fine.1
  · rw [if_neg fun found => again (List.contains_iff_mem.mp found)]
    cases known : context.type? operation.resultType with
    | none =>
      constructor
      · intro impossible
        cases impossible
      · rintro ⟨_, ⟨type, impossible⟩, _⟩
        cases impossible
    | some type =>
      cases isModel : operation.model? with
      | none =>
        constructor
        · intro _
          exact ⟨again, ⟨type, rfl⟩, fun _ impossible => nomatch impossible⟩
        · intro _
          rfl
      | some model =>
        by_cases present : model ∈ models.keys
        · have contained := (Table.contains_iff_mem_keys models model).mpr present
          constructor
          · intro _
            refine ⟨again, ⟨type, rfl⟩, fun name same => ?_⟩
            cases same
            exact present
          · intro _
            simp [contained]
        · constructor
          · intro accepted
            simp [Table.contains_iff_mem_keys, present] at accepted
          · intro fine
            exact absurd (fine.2.2 model rfl) present

mutual

theorem checkNode_eq_ok_iff (above : List String) : ∀ node : Node,
    checkNode context models above node = .ok () ↔ node.WellFormed context models above
  | ⟨operation, method, path, arguments, inherited, model?, children⟩ => by
    have lower := checkNodes_eq_ok_iff (above ++ [operation.name]) children
    unfold checkNode Node.WellFormed
    rw [Outcome.bind_eq_ok_iff]
    constructor
    · rintro ⟨_, own, onward⟩
      obtain ⟨fresh, known, present⟩ := checkOperation_eq_ok_iff.mp own
      obtain ⟨_, supplied, onward⟩ := Outcome.bind_eq_ok_iff.mp onward
      refine ⟨fresh, known, present, checkInherited_eq_ok_iff.mp supplied, ?_⟩
      cases children with
      | nil => exact ⟨fun impossible => absurd rfl impossible, lower.mp (by rw [checkNodes]; rfl)⟩
      | cons child rest =>
        cases model? with
        | none => cases onward
        | some model =>
          obtain ⟨_, siblings, later⟩ := Outcome.bind_eq_ok_iff.mp onward
          exact ⟨fun _ => ⟨model, rfl, checkSiblings_eq_ok_iff.mp siblings⟩, lower.mp later⟩
    · rintro ⟨fresh, known, present, supplied, siblings, below⟩
      refine ⟨(), checkOperation_eq_ok_iff.mpr ⟨fresh, known, present⟩, ?_⟩
      refine Outcome.bind_eq_ok_iff.mpr ⟨(), checkInherited_eq_ok_iff.mpr supplied, ?_⟩
      cases children with
      | nil => rfl
      | cons child rest =>
        obtain ⟨model, rfl, distinct⟩ := siblings (List.cons_ne_nil child rest)
        exact Outcome.bind_eq_ok_iff.mpr
          ⟨(), checkSiblings_eq_ok_iff.mpr distinct, lower.mpr below⟩

theorem checkNodes_eq_ok_iff (above : List String) : ∀ nodes : List Node,
    checkNodes context models above nodes = .ok () ↔ Node.AllWellFormed context models above nodes
  | [] => by
    rw [checkNodes, Node.AllWellFormed]
    exact ⟨fun _ => trivial, fun _ => rfl⟩
  | node :: rest => by
    rw [checkNodes, Node.AllWellFormed, ← checkNode_eq_ok_iff above node,
      ← checkNodes_eq_ok_iff above rest]
    constructor
    · intro accepted
      obtain ⟨_, first, later⟩ := Outcome.bind_eq_ok_iff.mp accepted
      exact ⟨first, later⟩
    · rintro ⟨first, later⟩
      exact Outcome.bind_eq_ok_iff.mpr ⟨(), first, later⟩

end

theorem check_eq_ok_iff {forest : Forest} :
    forest.check context models = .ok () ↔ forest.WellFormed context models := by
  refine Outcome.forM_eq_ok_iff.trans (forall₂_congr fun entry _ => ?_)
  rw [Outcome.bind_eq_ok_iff, ← checkNodes_eq_ok_iff, ← Table.keys_empty (α := String),
    ← checkSiblings_eq_ok_iff]
  exact ⟨fun ⟨_, siblings, below⟩ => ⟨siblings, below⟩,
    fun ⟨siblings, below⟩ => ⟨(), siblings, below⟩⟩

end ChainedSdk.Forest
