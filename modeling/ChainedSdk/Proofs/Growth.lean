import ChainedSdk.Proofs.Readings
import ChainedSdk.Proofs.Resolution
/-!
# What a forest grows from

A forest is built exactly where every place holds what the parents give it, so to say how a forest
has grown is to say what is built. Documents are resolved to what their operations grow to.
-/

namespace ChainedSdk

variable {config : Config} {models : Table Model} {parents : Parents}
  {operations : List Operation}

namespace Node

/-- A node is built anew from what is settled at it and below it, whatever else is pending. -/
theorem build_of_settled (acyclic : parents.Acyclic) {root : Node}
    (settled : ∀ higher node, root.Below higher node →
      Settled config models parents operations higher node)
    {node : Node} {higher : List Node} (below : root.Below higher node) {pending : List Operation}
    (serves : parents.Serves operations pending node.operation.name) :
    Node.build config models parents pending (higher.filterMap (·.model?))
      ((higher.filterMap (·.model?)).map (·.name)).reverse node.operation node.method =
        .ok node := by
  induction node using induction_children generalizing higher pending with
  | step node ih =>
    have spec := settled higher node below
    -- Whoever has this node as parent is still pending, so the same children are met.
    have children : parents.childrenOf (some node.operation.name) pending =
        node.children.map (·.operation) :=
      (serves _ (acyclic.mem_lineage_self _)).trans spec.children_eq.symm
    rw [Node.build, children, ← spec.arguments_eq, ← spec.inherited_eq, ← spec.model_eq,
      ← spec.path_eq]
    split
    · next some_ =>
      have inhabited : node.children ≠ [] := fun none_ => some_ (congrArg _ none_)
      obtain ⟨model, isModel, assigned⟩ := spec.named.resolve_left inhabited
      rw [isModel]
      dsimp only
      rw [List.map_map]
      refine Outcome.bind_eq_ok_iff.mpr ⟨_, assigned, ?_⟩
      refine Outcome.bind_eq_ok_iff.mpr ⟨node.children, ?_, ?_⟩
      · rw [List.zip_map', Outcome.mapM_eq_ok_iff, List.forall₂_map_left_iff, List.forall₂_same]
        intro child isChild
        have chosen : parents.get? child.operation.name = some node.operation.name := by
          have placed := List.mem_map_of_mem (f := (·.operation)) isChild
          rw [← children] at placed
          exact (Parents.mem_childrenOf.mp placed).2
        have lower := ih child isChild (.child below isChild) (serves.othersThan acyclic chosen)
        rw [List.filterMap_cons, isModel, List.map_cons, List.reverse_cons,
          ← spec.path_eq] at lower
        exact lower
      · rw [← isModel]
        cases node
        rfl
    · next none_ =>
      have childless : node.children = [] := List.map_eq_nil_iff.mp (not_not.mp none_)
      rw [← childless]
      cases node
      rfl

end Node

namespace Forest

variable {context : Context} {forest : Forest}

theorem Grown.build_eq (grown : Grown config models parents operations forest)
    (acyclic : parents.Acyclic) : build config models parents operations = .ok forest := by
  have whole : build config models parents operations = (forest.map Prod.fst).mapM
      (buildKind config models parents operations (parents.childrenOf none operations)) :=
    grown.kinds ▸ rfl
  rw [whole, Outcome.mapM_eq_ok_iff, List.forall₂_map_left_iff, List.forall₂_same]
  intro entry isEntry
  unfold buildKind
  rw [← grown.roots entry isEntry]
  dsimp only
  rw [List.map_map]
  refine Outcome.bind_eq_ok_iff.mpr ⟨_, grown.named entry isEntry, ?_⟩
  refine Outcome.bind_eq_ok_iff.mpr ⟨entry.2, ?_, rfl⟩
  rw [List.zip_map', Outcome.mapM_eq_ok_iff, List.forall₂_map_left_iff, List.forall₂_same]
  intro root isRoot
  exact Node.build_of_settled acyclic (grown.settled entry isEntry root isRoot) .root
    (parents.serves_all operations _)

theorem build_eq_ok_iff (acyclic : parents.Acyclic) :
    build config models parents operations = .ok forest ↔
      Grown config models parents operations forest :=
  ⟨grown_of_build acyclic, fun grown => grown.build_eq acyclic⟩

theorem resolve_eq_ok_iff {schema : Document} {files documents : List DocumentFile}
    {models : List Model} (made : Context.ofDocument schema files config = .ok context)
    (extracted : context.models documents = .ok models) :
    (resolve context documents models).outcome = .ok forest ↔ ∃ operations,
      (collectOperations context (modelTable models) documents).outcome = .ok operations ∧
      Grown context.config (modelTable models)
        (Parents.ofOperations context.config (modelTable models) operations)
        operations forest := by
  rw [outcome_resolve]
  constructor
  · intro resolved
    obtain ⟨operations, collected, onward⟩ := Outcome.bind_eq_ok_iff.mp resolved
    obtain ⟨assembled, placed, checked⟩ := Outcome.bind_eq_ok_iff.mp onward
    obtain ⟨_, _, same⟩ := Outcome.bind_eq_ok_iff.mp checked
    cases same
    have distinct := (collectOperations_eq_ok collected).2
    exact ⟨operations, collected, (grown_of_assemble distinct placed).1⟩
  · rintro ⟨operations, collected, grown⟩
    obtain ⟨reads, distinct⟩ := collectOperations_eq_ok collected
    have acyclic := Parents.acyclic_ofCandidates
      (Candidate.ofOperations context.config (modelTable models) operations) operations
    have arranges := grown.arranges acyclic distinct fun child parent chosen =>
      let ⟨operation, member, sameName, _⟩ := Parents.exists_of_ofOperations chosen
      ⟨operation, member, sameName⟩
    have coherent := (Context.spec_of_models made extracted).1
    have read : ∀ operation ∈ operations, ∃ definition,
        operation.Reads context (modelTable models) definition := fun operation member =>
      let ⟨definition, _, isRead⟩ := Outcome.exists_of_forall₂ reads member
      ⟨definition, isRead⟩
    refine Outcome.bind_eq_ok_iff.mpr ⟨operations, collected, ?_⟩
    refine Outcome.bind_eq_ok_iff.mpr ⟨forest, ?_, ?_⟩
    · refine Outcome.bind_eq_ok_iff.mpr ⟨forest, (build_eq_ok_iff acyclic).mpr grown, ?_⟩
      rw [leftOut_eq_nil arranges]
      rfl
    · exact Outcome.bind_eq_ok_iff.mpr
        ⟨(), check_eq_ok_iff.mpr (grown.wellFormed arranges coherent read), rfl⟩

end Forest

end ChainedSdk
