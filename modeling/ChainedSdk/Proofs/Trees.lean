import ChainedSdk.Chain.Assemble
import ChainedSdk.Proofs.MethodNames
import ChainedSdk.Proofs.Parents
/-!
# Trees built from parents

Where a node stands in its tree, and what the building of a tree has put there. As parents are
acyclic, the operations still to be placed always hold all children of the operations below, so the
children of every node are the operations that have chosen its operation as parent.
-/

namespace ChainedSdk

namespace Node

/-- A node stands in the tree of a root below some nodes, nearest first; the last of them is the
root. -/
inductive Below (root : Node) : List Node → Node → Prop
  | root : Below root [] root
  | child {above : List Node} {parent child : Node} : Below root above parent →
      child ∈ parent.children → Below root (parent :: above) child

theorem sizeOf_lt_of_mem_children {node child : Node} (member : child ∈ node.children) :
    sizeOf child < sizeOf node := by
  have smaller := List.sizeOf_lt_of_mem member
  cases node
  simp only [Node.mk.sizeOf_spec] at smaller ⊢
  omega

/-- What holds of a node whenever it holds of its children holds of all nodes. -/
theorem induction_children {motive : Node → Prop}
    (step : ∀ node : Node, (∀ child ∈ node.children, motive child) → motive node) (node : Node) :
    motive node := by
  induction size : sizeOf node using Nat.strongRecOn generalizing node with
  | ind _ ih =>
    refine step node fun child member => ih (sizeOf child) ?_ child rfl
    rw [← size]
    exact sizeOf_lt_of_mem_children member

theorem walkAll_eq_flatMap (nodes : List Node) : walkAll nodes = nodes.flatMap walk := by
  induction nodes with
  | nil => rfl
  | cons node rest ih => rw [walkAll, ih, List.flatMap_cons]

theorem walk_eq_cons (node : Node) : node.walk = node :: walkAll node.children := by
  cases node
  rw [walk]

theorem mem_walkAll {node : Node} {nodes : List Node} :
    node ∈ walkAll nodes ↔ ∃ root ∈ nodes, node ∈ root.walk := by
  rw [walkAll_eq_flatMap, List.mem_flatMap]

theorem mem_walk {node root : Node} :
    node ∈ root.walk ↔ node = root ∨ ∃ child ∈ root.children, node ∈ child.walk := by
  rw [walk_eq_cons, List.mem_cons, mem_walkAll]

theorem Below.trans {root middle node : Node} {above higher : List Node}
    (lower : middle.Below above node) (upper : root.Below higher middle) :
    root.Below (above ++ higher) node := by
  induction lower with
  | root => exact upper
  | child _ isChild ih => exact .child ih isChild

theorem Below.lift {root child node : Node} {above : List Node} (member : child ∈ root.children)
    (below : child.Below above node) : root.Below (above ++ [root]) node :=
  below.trans (.child .root member)

theorem mem_walk_child {root parent child : Node} (member : parent ∈ root.walk)
    (isChild : child ∈ parent.children) : child ∈ root.walk := by
  induction root using induction_children with
  | step root ih =>
    rcases mem_walk.mp member with same | ⟨inner, isInner, deeper⟩
    · rw [same] at isChild
      exact mem_walk.mpr (Or.inr ⟨child, isChild, mem_walk.mpr (Or.inl rfl)⟩)
    · exact mem_walk.mpr (Or.inr ⟨inner, isInner, ih inner isInner deeper⟩)

theorem mem_walk_iff_below {root node : Node} :
    node ∈ root.walk ↔ ∃ above, root.Below above node := by
  constructor
  · intro member
    induction root using induction_children with
    | step root ih =>
      rcases mem_walk.mp member with same | ⟨child, isChild, lower⟩
      · rw [same]
        exact ⟨[], .root⟩
      · obtain ⟨above, below⟩ := ih child isChild lower
        exact ⟨above ++ [root], below.lift isChild⟩
  · rintro ⟨above, below⟩
    induction below with
    | root => exact mem_walk.mpr (Or.inl rfl)
    | child _ isChild ih => exact mem_walk_child ih isChild

theorem mem_walk_trans {root middle node : Node} (lower : node ∈ middle.walk)
    (upper : middle ∈ root.walk) : node ∈ root.walk := by
  obtain ⟨above, below⟩ := mem_walk_iff_below.mp lower
  obtain ⟨higher, middleBelow⟩ := mem_walk_iff_below.mp upper
  exact mem_walk_iff_below.mpr ⟨above ++ higher, below.trans middleBelow⟩

/-- The nodes above another one are in the same tree, and it is in the trees below them. -/
theorem Below.mem_walk_of_above {root node upper : Node} {above : List Node}
    (below : root.Below above node) (isAbove : upper ∈ above) :
    upper ∈ root.walk ∧ node ∈ upper.walk := by
  induction below with
  | root => cases isAbove
  | @child higher parent child isParent isChild ih =>
    rcases List.mem_cons.mp isAbove with rfl | further
    · exact ⟨mem_walk_iff_below.mpr ⟨higher, isParent⟩,
        mem_walk_child (mem_walk.mpr (Or.inl rfl)) isChild⟩
    · exact ⟨(ih further).1, mem_walk_child (ih further).2 isChild⟩

end Node

theorem Forest.mem_walk {forest : Forest} {node : Node} :
    node ∈ forest.walk ↔ ∃ entry ∈ forest, ∃ root ∈ entry.2, node ∈ root.walk := by
  simp only [Forest.walk, List.mem_flatMap, Node.mem_walkAll]

theorem Forest.mem_walk_of_below {forest : Forest} {entry : OperationKind × List Node}
    (isEntry : entry ∈ forest) {root node : Node} (isRoot : root ∈ entry.2) {above : List Node}
    (below : root.Below above node) : node ∈ forest.walk :=
  mem_walk.mpr ⟨entry, isEntry, root, isRoot, Node.mem_walk_iff_below.mpr ⟨above, below⟩⟩

theorem Forest.mem_walk_of_child {forest : Forest} {parent child : Node}
    (member : parent ∈ forest.walk) (isChild : child ∈ parent.children) : child ∈ forest.walk := by
  obtain ⟨entry, isEntry, root, isRoot, inTree⟩ := mem_walk.mp member
  exact mem_walk.mpr ⟨entry, isEntry, root, isRoot, Node.mem_walk_child inTree isChild⟩

theorem Node.sublist_walkAll (nodes : List Node) : nodes.Sublist (walkAll nodes) := by
  induction nodes with
  | nil => exact List.Sublist.slnil
  | cons node rest ih =>
    rw [walkAll, walk_eq_cons]
    exact (ih.trans (List.sublist_append_right _ _)).cons_cons node

namespace Node

private theorem walkAll_perm {nodes : List Node}
    (each : ∀ node ∈ nodes, node.walk.Perm (node :: node.walk.flatMap (·.children))) :
    (walkAll nodes).Perm (nodes ++ (walkAll nodes).flatMap (·.children)) := by
  induction nodes with
  | nil => exact .nil
  | cons node rest ih =>
    have first := each node List.mem_cons_self
    have later := ih fun other member => each other (List.mem_cons_of_mem _ member)
    rw [walkAll, List.flatMap_append]
    exact (first.append later).trans ((List.perm_append_comm_assoc _ _ _).cons node)

theorem walk_perm (node : Node) : node.walk.Perm (node :: node.walk.flatMap (·.children)) := by
  induction node using induction_children with
  | step node ih =>
    rw [walk_eq_cons, List.flatMap_cons]
    exact (walkAll_perm ih).cons node

end Node

/-- A forest holds its roots and the children of all its nodes. -/
theorem Forest.walk_perm_roots (forest : Forest) :
    forest.walk.Perm
      ((forest.flatMap fun entry => entry.2) ++ forest.walk.flatMap (·.children)) := by
  have whole : forest.walk = Node.walkAll (forest.flatMap fun entry => entry.2) := by
    simp only [walk, Node.walkAll_eq_flatMap, List.flatMap_assoc]
  rw [whole]
  exact Node.walkAll_perm fun node _ => node.walk_perm

theorem Forest.roots_sublist_walk (forest : Forest) :
    (forest.flatMap fun entry => entry.2).Sublist forest.walk := by
  induction forest with
  | nil => exact List.Sublist.slnil
  | cons entry rest ih =>
    rw [walk, List.flatMap_cons, List.flatMap_cons]
    exact (Node.sublist_walkAll entry.2).append ih

namespace Parents

theorem mem_childrenOf {parents : Parents} {parent? : Option String} {operations : List Operation}
    {operation : Operation} :
    operation ∈ parents.childrenOf parent? operations ↔
      operation ∈ operations ∧ parents.get? operation.name = parent? := by
  simp [childrenOf]

/-- Some pending operations hold everything that is called below an operation. -/
def Serves (parents : Parents) (operations pending : List Operation) (name : String) : Prop :=
  ∀ lower, name ∈ parents.lineage lower →
    parents.childrenOf (some lower) pending = parents.childrenOf (some lower) operations

theorem serves_all (parents : Parents) (operations : List Operation) (name : String) :
    parents.Serves operations operations name := fun _ _ => rfl

/-- The pending operations left after the children of an operation are taken out still hold all that
is called below such a child, because the operation does not stand below its own child. -/
theorem Serves.othersThan {parents : Parents} {operations pending : List Operation}
    {name child : String} (serves : parents.Serves operations pending name)
    (acyclic : parents.Acyclic) (hasParent : parents.get? child = some name) :
    parents.Serves operations (parents.othersThan name pending) child := by
  intro lower passes
  have higher : name ∈ parents.lineage lower := by
    refine acyclic.mem_lineage_trans ?_ passes
    rw [acyclic.lineage_of_parent hasParent]
    exact List.mem_cons_of_mem _ (acyclic.mem_lineage_self name)
  have differ : lower ≠ name := by
    intro same
    rw [same] at passes
    exact acyclic.not_mem_lineage_parent hasParent passes
  rw [← serves lower higher]
  unfold Parents.childrenOf Parents.othersThan
  rw [List.filter_filter]
  refine List.filter_congr fun operation _ => ?_
  by_cases chosen : parents.get? operation.name = some lower
  · simp [chosen, differ]
  · simp [chosen]

end Parents

namespace Node

variable {config : Config} {models : Table Model} {parents : Parents}
  {pending operations : List Operation} {above : List Model} {path : List String}
  {operation : Operation} {method : String}

/-- What a built node holds and how its children are built. -/
structure Built (config : Config) (models : Table Model) (parents : Parents)
    (pending : List Operation) (above : List Model) (path : List String) (operation : Operation)
    (method : String) (node : Node) : Prop where
  operation_eq : node.operation = operation
  method_eq : node.method = method
  path_eq : node.path = path
  model_eq : node.model? = operation.resultModel? models
  arguments_eq : node.arguments = operation.arguments config above
  inherited_eq : node.inherited = operation.inherited config above
  children_built :
    (parents.childrenOf (some operation.name) pending = [] ∧ node.children = []) ∨
    ∃ model methods, node.model? = some model ∧
      MethodName.assign config (some operation.name) (model.reserved config)
        ((parents.childrenOf (some operation.name) pending).map (·.name)) = .ok methods ∧
      List.Forall₂ (fun child built => Node.build config models parents
          (parents.othersThan operation.name pending) (model :: above) (path ++ [model.name])
          child.1 child.2 = .ok built)
        ((parents.childrenOf (some operation.name) pending).zip methods) node.children

theorem built_of_build {node : Node}
    (placed : Node.build config models parents pending above path operation method = .ok node) :
    Built config models parents pending above path operation method node := by
  rw [Node.build] at placed
  split at placed
  · next some_ =>
    cases found : operation.resultModel? models with
    | none =>
      rw [found] at placed
      cases placed
    | some model =>
      rw [found] at placed
      obtain ⟨methods, assigned, later⟩ := Outcome.bind_eq_ok_iff.mp placed
      obtain ⟨nodes, every, same⟩ := Outcome.bind_eq_ok_iff.mp later
      cases same
      exact {
        operation_eq := rfl, method_eq := rfl, path_eq := rfl, model_eq := found.symm
        arguments_eq := rfl, inherited_eq := rfl
        children_built := Or.inr ⟨model, methods, rfl, assigned, Outcome.mapM_eq_ok_iff.mp every⟩ }
  · next none_ =>
    cases placed
    exact {
      operation_eq := rfl, method_eq := rfl, path_eq := rfl, model_eq := rfl
      arguments_eq := rfl, inherited_eq := rfl
      children_built := Or.inl ⟨not_not.mp none_, rfl⟩ }

/-- Why a tree is not built: an operation with children has no model, or its children get no
names. -/
inductive Unbuilt (config : Config) (models : Table Model) (parents : Parents)
    (operations : List Operation) : Error → Prop
  | noModel {operation child : Operation} :
      operation ∈ operations → parents.get? child.name = some operation.name →
      operation.resultModel? models = none →
      Unbuilt config models parents operations (.missing (.resultModel operation.name))
  | noNames {parent? : Option String} {reserved : Table String} {names : List String}
      {error : Error} :
      MethodName.assign config parent? reserved names = .error error →
      Unbuilt config models parents operations error

theorem unbuilt_of_build {error : Error} (contained : pending ⊆ operations)
    (isOperation : operation ∈ operations)
    (failed : Node.build config models parents pending above path operation method =
      .error error) : Unbuilt config models parents operations error := by
  induction size : pending.length using Nat.strongRecOn
    generalizing pending above path operation method with
  | ind _ ih =>
    rw [Node.build] at failed
    split at failed
    · next some_ =>
      cases found : operation.resultModel? models with
      | none =>
        rw [found] at failed
        cases failed
        obtain ⟨child, member⟩ := List.exists_mem_of_ne_nil _ some_
        exact .noModel isOperation (Parents.mem_childrenOf.mp member).2 found
      | some model =>
        rw [found] at failed
        rcases Outcome.bind_eq_error_iff.mp failed with unnamed | ⟨methods, _, later⟩
        · exact .noNames unnamed
        · rcases Outcome.bind_eq_error_iff.mp later with unplaced | ⟨nodes, _, impossible⟩
          · obtain ⟨child, paired, childFailed⟩ := Outcome.exists_of_mapM_eq_error unplaced
            have fewer := parents.length_othersThan_lt operation.name pending some_
            have isPending := (Parents.mem_childrenOf.mp (List.of_mem_zip paired).1).1
            exact ih _ (size ▸ fewer)
              (fun item member => contained (List.mem_of_mem_filter member))
              (contained isPending) childFailed rfl
          · cases impossible
    · cases failed

/-- Every node of a built tree is built itself, from pending operations that hold all that is called
below it and under the models of the nodes above it. -/
theorem Below.built {root node : Node} {higher : List Node} (below : root.Below higher node)
    (acyclic : parents.Acyclic)
    (placed : Node.build config models parents operations [] [] operation method = .ok root) :
    ∃ pending, parents.Serves operations pending node.operation.name ∧
      Node.build config models parents pending (higher.filterMap (·.model?))
        ((higher.filterMap (·.model?)).map (·.name)).reverse node.operation node.method =
          .ok node := by
  induction below with
  | root =>
    have spec := built_of_build placed
    refine ⟨operations, parents.serves_all operations _, ?_⟩
    rw [spec.operation_eq, spec.method_eq]
    exact placed
  | @child higher parent child _ isChild ih =>
    obtain ⟨pending, serves, parentPlaced⟩ := ih
    have spec := built_of_build parentPlaced
    rcases spec.children_built with ⟨_, none_⟩ | ⟨model, methods, found, _, every⟩
    · rw [none_] at isChild
      cases isChild
    · obtain ⟨pair, paired, childPlaced⟩ := Outcome.exists_of_forall₂ every isChild
      have childSpec := built_of_build childPlaced
      have chosen := (Parents.mem_childrenOf.mp (List.of_mem_zip paired).1).2
      rw [← childSpec.operation_eq] at chosen
      refine ⟨_, serves.othersThan acyclic chosen, ?_⟩
      rw [List.filterMap_cons, found]
      simp only [List.map_cons, List.reverse_cons]
      rw [childSpec.operation_eq, childSpec.method_eq]
      exact childPlaced

end Node

end ChainedSdk
