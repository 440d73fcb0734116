import ChainedSdk.Proofs.Growth
import ChainedSdk.Proofs.Retained
/-!
# Forests of retained operations

From the operations of some kinds the same trees grow as among all operations, wherever they are
declared: only the operations at the nodes are moved, and the trees of other kinds are left out.
-/

namespace ChainedSdk

/-! ## Trees with other operations -/

mutual

/-- A tree with changed operations at its nodes. -/
def Node.mapOperation (change : Operation → Operation) : Node → Node
  | ⟨operation, method, path, arguments, inherited, model?, children⟩ => {
    operation := change operation
    method, path, arguments, inherited, model?
    children := Node.mapOperations change children }

def Node.mapOperations (change : Operation → Operation) : List Node → List Node
  | [] => []
  | node :: rest => node.mapOperation change :: Node.mapOperations change rest

end

def Forest.mapOperations (change : Operation → Operation) (forest : Forest) : Forest :=
  forest.map fun entry => (entry.1, Node.mapOperations change entry.2)

namespace Node

variable {change next : Operation → Operation} {node root : Node}

theorem mapOperations_eq_map (change : Operation → Operation) (nodes : List Node) :
    mapOperations change nodes = nodes.map (mapOperation change) := by
  induction nodes with
  | nil => rfl
  | cons node rest ih => rw [mapOperations, ih, List.map_cons]

@[simp] theorem operation_mapOperation :
    (node.mapOperation change).operation = change node.operation := by
  cases node
  rw [mapOperation]

@[simp] theorem method_mapOperation : (node.mapOperation change).method = node.method := by
  cases node
  rw [mapOperation]

theorem methods_mapOperation (change : Operation → Operation) (nodes : List Node) :
    (nodes.map (mapOperation change)).map (·.method) = nodes.map (·.method) := by
  rw [List.map_map]
  exact List.map_congr_left fun node _ => method_mapOperation

@[simp] theorem path_mapOperation : (node.mapOperation change).path = node.path := by
  cases node
  rw [mapOperation]

@[simp] theorem arguments_mapOperation :
    (node.mapOperation change).arguments = node.arguments := by
  cases node
  rw [mapOperation]

@[simp] theorem inherited_mapOperation :
    (node.mapOperation change).inherited = node.inherited := by
  cases node
  rw [mapOperation]

@[simp] theorem model_mapOperation : (node.mapOperation change).model? = node.model? := by
  cases node
  rw [mapOperation]

@[simp] theorem children_mapOperation :
    (node.mapOperation change).children = node.children.map (mapOperation change) := by
  cases node
  rw [mapOperation, mapOperations_eq_map]

theorem mapOperation_mapOperation (node : Node)
    (same : ∀ inner ∈ node.walk, next (change inner.operation) = next inner.operation) :
    (node.mapOperation change).mapOperation next = node.mapOperation next := by
  induction node using induction_children with
  | step node ih =>
    have here := same node (mem_walk.mpr (Or.inl rfl))
    have below : ∀ child ∈ node.children,
        (child.mapOperation change).mapOperation next = child.mapOperation next :=
      fun child isChild => ih child isChild fun inner isInner =>
        same inner (mem_walk.mpr (Or.inr ⟨child, isChild, isInner⟩))
    obtain ⟨operation, method, path, arguments, inherited, model?, children⟩ := node
    simp only [mapOperation, mapOperations_eq_map, List.map_map]
    rw [here]
    exact congrArg _ (List.map_congr_left below)

/-- Every place of a changed tree is that of the tree. -/
theorem Below.of_mapOperation {above : List Node}
    (below : (root.mapOperation change).Below above node) : ∃ higher inner,
      root.Below higher inner ∧ above = higher.map (mapOperation change) ∧
        node = inner.mapOperation change := by
  induction below with
  | root => exact ⟨[], root, .root, rfl, rfl⟩
  | @child above parent child _ isChild ih =>
    obtain ⟨higher, inner, below, rfl, rfl⟩ := ih
    rw [children_mapOperation] at isChild
    obtain ⟨lower, isLower, rfl⟩ := List.mem_map.mp isChild
    exact ⟨inner :: higher, lower, .child below isLower, rfl, rfl⟩

theorem filterMap_model_mapOperation (change : Operation → Operation) (nodes : List Node) :
    (nodes.map (mapOperation change)).filterMap (·.model?) = nodes.filterMap (·.model?) := by
  rw [List.filterMap_map]
  exact List.filterMap_congr fun node _ => model_mapOperation

end Node

theorem Forest.mapOperations_mapOperations {change next : Operation → Operation}
    {forest : Forest}
    (same : ∀ node ∈ forest.walk, next (change node.operation) = next node.operation) :
    (forest.mapOperations change).mapOperations next = forest.mapOperations next := by
  rw [mapOperations, mapOperations, mapOperations, List.map_map]
  refine List.map_congr_left fun entry isEntry => Prod.ext rfl ?_
  show Node.mapOperations next (Node.mapOperations change entry.2) = _
  rw [Node.mapOperations_eq_map, Node.mapOperations_eq_map, Node.mapOperations_eq_map,
    List.map_map]
  exact List.map_congr_left fun root isRoot => Node.mapOperation_mapOperation root
    fun node inTree => same node (mem_walk.mpr ⟨entry, isEntry, root, isRoot, inTree⟩)

/-! ## Kinds -/

private theorem eraseDups_filter {α : Type} [DecidableEq α] (keep : α → Bool) (items : List α) :
    (items.filter keep).eraseDups = items.eraseDups.filter keep := by
  induction size : items.length using Nat.strongRecOn generalizing items with
  | ind _ ih =>
    cases items with
    | nil => rfl
    | cons first rest =>
      have shorter : (rest.filter fun item => !item == first).length < (first :: rest).length :=
        Nat.lt_succ_of_le (List.length_filter_le _ _)
      have later := ih _ (size ▸ shorter) _ rfl
      rw [List.eraseDups_cons]
      by_cases isKept : keep first
      · rw [List.filter_cons_of_pos isKept, List.filter_cons_of_pos isKept, List.eraseDups_cons,
          ← later, List.filter_filter, List.filter_filter]
        simp only [Bool.and_comm]
      · rw [List.filter_cons_of_neg isKept, List.filter_cons_of_neg isKept, ← later,
          List.filter_filter]
        -- Nothing that is kept equals the first item.
        refine congrArg _ (List.filter_congr fun item _ => ?_)
        by_cases same : item = first
        · simp [same, isKept]
        · simp [same]

theorem Parents.kind_of_ofOperations {config : Config} {models : Table Model}
    {operations : List Operation} (distinct : (operations.map (·.name)).Nodup)
    {child parent : Operation} (isChild : child ∈ operations) (isParent : parent ∈ operations)
    (chosen : (ofOperations config models operations).get? child.name = some parent.name) :
    parent.kind = child.kind := by
  obtain ⟨_, _, _, candidate, isCandidate, sameParent⟩ := get?_ofCandidates chosen
  rw [Candidate.get?_ofOperations distinct isChild] at isCandidate
  obtain ⟨other, isOther, supplies, rfl⟩ := Candidate.mem_ranked.mp isCandidate
  rw [← List.inj_on_of_nodup_map distinct isOther isParent sameParent]
  exact Candidate.kind_of_suppliedUnder supplies

/-- All operations of a tree are of the kind under which it stands. -/
theorem Forest.Grown.kind_eq {config : Config} {models : Table Model}
    {operations : List Operation} {forest : Forest}
    (grown : Grown config models (Parents.ofOperations config models operations) operations forest)
    (distinct : (operations.map (·.name)).Nodup) {entry : OperationKind × List Node}
    (isEntry : entry ∈ forest) {root node : Node} (isRoot : root ∈ entry.2) {above : List Node}
    (below : root.Below above node) : node.operation.kind = entry.1 := by
  induction below with
  | root => exact (grown.root_spec isEntry isRoot).2.2
  | @child above parent child below isChild ih =>
    have chosen := (grown.faithful isEntry isRoot).parent_of_child
      (Node.mem_walk_iff_below.mpr ⟨above, below⟩) isChild
    rw [← ih]
    exact (Parents.kind_of_ofOperations distinct chosen.1
      (grown.operation_mem (mem_walk_of_below isEntry isRoot below)) chosen.2).symm

/-! ## Growing anew -/

namespace Retained

variable {keeps : OperationKind → Bool} {move : Operation → Operation}
  {config : Config} {models others : Table Model} {operations kept : List Operation}
  {forest : Forest}

theorem resultModel_eq (retained : Retained keeps move models others operations kept)
    {operation : Operation} (member : operation ∈ operations) (isKept : keeps operation.kind) :
    (move operation).resultModel? others = operation.resultModel? models := by
  have unmoved : (move operation).resultModel? others = operation.resultModel? others := by
    show (move operation).unplaced.resultModel? others = operation.unplaced.resultModel? others
    rw [retained.unplaced_eq]
  rw [unmoved, retained.results operation member isKept]

theorem arguments_eq (retained : Retained keeps move models others operations kept)
    (operation : Operation) (above : List Model) :
    (move operation).arguments config above = operation.arguments config above := by
  show (move operation).unplaced.arguments config above = operation.unplaced.arguments config above
  rw [retained.unplaced_eq]

theorem inherited_eq (retained : Retained keeps move models others operations kept)
    (operation : Operation) (above : List Model) :
    (move operation).inherited config above = operation.inherited config above := by
  show (move operation).unplaced.inherited config above = operation.unplaced.inherited config above
  rw [retained.unplaced_eq]

theorem kind_eq (retained : Retained keeps move models others operations kept)
    (operation : Operation) : (move operation).kind = operation.kind := by
  show (move operation).unplaced.kind = operation.unplaced.kind
  rw [retained.unplaced_eq]

theorem childrenOf_eq (retained : Retained keeps move models others operations kept)
    (config : Config) (parent? : Option String) :
    (Parents.ofOperations config others kept).childrenOf parent? kept =
      (((Parents.ofOperations config models operations).childrenOf parent? operations).filter
        fun operation => keeps operation.kind).map move := by
  have agree := retained.agreeOn_ofOperations config
  unfold Parents.childrenOf
  generalize Parents.ofOperations config others kept = otherParents at agree
  rw [retained.kept_eq, List.filter_map, List.filter_filter, List.filter_filter]
  refine congrArg _ (List.filter_congr fun operation member => ?_)
  rw [Function.comp_apply, retained.name_eq]
  by_cases isKept : keeps operation.kind
  · rw [agree.same _ ((retained.isKept_iff member).mpr isKept), Bool.and_comm]
  · simp [isKept]

theorem names_eq (retained : Retained keeps move models others operations kept)
    (nodes : List Node) :
    (nodes.map (Node.mapOperation move)).map (·.operation.name) =
      nodes.map (·.operation.name) := by
  rw [List.map_map]
  refine List.map_congr_left fun node _ => ?_
  rw [Function.comp_apply, Node.operation_mapOperation, retained.name_eq]

variable (retained : Retained keeps move models others operations kept)
  (grown : Forest.Grown config models (Parents.ofOperations config models operations)
    operations forest)
include retained grown

theorem settled {entry : OperationKind × List Node} (isEntry : entry ∈ forest)
    (isKept : keeps entry.1) {root node : Node} (isRoot : root ∈ entry.2) {higher : List Node}
    (below : root.Below higher node) :
    Node.Settled config others (Parents.ofOperations config others kept) kept
      (higher.map (Node.mapOperation move)) (node.mapOperation move) := by
  have spec := grown.settled entry isEntry root isRoot higher node below
  have isNode := Forest.mem_walk_of_below isEntry isRoot below
  have keptNode : keeps node.operation.kind := by
    rw [grown.kind_eq retained.distinct isEntry isRoot below]
    exact isKept
  have keptChildren : (node.children.map (·.operation)).filter
      (fun operation => keeps operation.kind) = node.children.map (·.operation) := by
    refine List.filter_eq_self.mpr fun operation member => ?_
    obtain ⟨child, isChild, rfl⟩ := List.mem_map.mp member
    rw [grown.kind_eq retained.distinct isEntry isRoot (.child below isChild)]
    exact isKept
  constructor
  · rw [Node.model_mapOperation, Node.operation_mapOperation,
      retained.resultModel_eq (grown.operation_mem isNode) keptNode]
    exact spec.model_eq
  · rw [Node.path_mapOperation, Node.filterMap_model_mapOperation]
    exact spec.path_eq
  · rw [Node.arguments_mapOperation, Node.operation_mapOperation, retained.arguments_eq,
      Node.filterMap_model_mapOperation]
    exact spec.arguments_eq
  · rw [Node.inherited_mapOperation, Node.operation_mapOperation, retained.inherited_eq,
      Node.filterMap_model_mapOperation]
    exact spec.inherited_eq
  · rw [Node.operation_mapOperation, retained.name_eq, retained.childrenOf_eq config,
      ← spec.children_eq, keptChildren, Node.children_mapOperation, List.map_map, List.map_map]
    exact List.map_congr_left fun child _ => Node.operation_mapOperation
  · rw [Node.children_mapOperation, retained.names_eq, Node.methods_mapOperation,
      Node.model_mapOperation, Node.operation_mapOperation, retained.name_eq]
    rcases spec.named with childless | named
    · exact Or.inl (congrArg _ childless)
    · exact Or.inr named

theorem kinds_regrown :
    (Forest.mapOperations move (forest.filter fun entry => keeps entry.1)).map Prod.fst =
      (((Parents.ofOperations config others kept).childrenOf none kept).map (·.kind)).eraseDups := by
  have sameKinds (above : List Operation) :
      ((above.filter fun operation => keeps operation.kind).map move).map (·.kind) =
        (above.map (·.kind)).filter keeps := by
    rw [List.map_map, List.filter_map]
    exact List.map_congr_left fun operation _ => retained.kind_eq operation
  rw [retained.childrenOf_eq config, sameKinds, eraseDups_filter, ← grown.kinds, List.filter_map,
    Forest.mapOperations, List.map_map]
  rfl

theorem roots_regrown {entry : OperationKind × List Node} (isEntry : entry ∈ forest)
    (isKept : keeps entry.1) :
    (entry.2.map (Node.mapOperation move)).map (·.operation) =
      ((Parents.ofOperations config others kept).childrenOf none kept).filter
        fun operation => operation.kind = entry.1 := by
  have sameRoots (above : List Operation) :
      ((above.filter fun operation => keeps operation.kind).map move).filter
          (fun operation => operation.kind = entry.1) =
        (above.filter fun operation => operation.kind = entry.1).map move := by
    rw [List.filter_map, List.filter_filter]
    refine congrArg _ (List.filter_congr fun operation _ => ?_)
    rw [Function.comp_apply, retained.kind_eq]
    by_cases same : operation.kind = entry.1
    · simp [same, isKept]
    · simp [same]
  rw [retained.childrenOf_eq config, sameRoots, ← grown.roots entry isEntry, List.map_map,
    List.map_map]
  exact List.map_congr_left fun root _ => Node.operation_mapOperation

/-- From the retained operations the trees of their kinds grow. -/
theorem regrown : Forest.Grown config others (Parents.ofOperations config others kept) kept
    (Forest.mapOperations move (forest.filter fun entry => keeps entry.1)) := by
  have ofEntry {entry : OperationKind × List Node}
      (isEntry : entry ∈ Forest.mapOperations move (forest.filter fun entry => keeps entry.1)) :
      ∃ before ∈ forest, keeps before.1 ∧
        entry = (before.1, before.2.map (Node.mapOperation move)) := by
    obtain ⟨before, isBefore, rfl⟩ := List.mem_map.mp isEntry
    obtain ⟨isOld, isKept⟩ := List.mem_filter.mp isBefore
    exact ⟨before, isOld, isKept, Prod.ext rfl (Node.mapOperations_eq_map move before.2)⟩
  constructor
  · exact retained.kinds_regrown grown
  · intro entry isEntry
    obtain ⟨before, isBefore, isKept, rfl⟩ := ofEntry isEntry
    exact retained.roots_regrown grown isBefore isKept
  · intro entry isEntry
    obtain ⟨before, isBefore, _, rfl⟩ := ofEntry isEntry
    rw [retained.names_eq, Node.methods_mapOperation]
    exact grown.named before isBefore
  · intro entry isEntry root isRoot higher node below
    obtain ⟨before, isBefore, isKept, rfl⟩ := ofEntry isEntry
    obtain ⟨top, isTop, rfl⟩ := List.mem_map.mp isRoot
    obtain ⟨higher, inner, within, rfl, rfl⟩ := below.of_mapOperation
    exact retained.settled grown isBefore isKept isTop within

end Retained

end ChainedSdk
