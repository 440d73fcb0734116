import ChainedSdk.Proofs.Trees
import Mathlib.Data.List.Nodup
/-!
# Every operation is placed once

A forest that is built from acyclic parents holds every operation exactly once, whatever candidates
the parents were chosen from, and keeps the order of the operations at every place. It fails only
where siblings cannot be given names.
-/

namespace ChainedSdk

/-! ## Order of first occurrences -/

private theorem nodup_eraseDups {α : Type} [DecidableEq α] (items : List α) :
    items.eraseDups.Nodup := by
  induction size : items.length using Nat.strongRecOn generalizing items with
  | ind _ ih =>
    cases items with
    | nil => exact List.nodup_nil
    | cons first rest =>
      rw [List.eraseDups_cons]
      have shorter : (rest.filter fun item => !item == first).length < (first :: rest).length :=
        Nat.lt_succ_of_le (List.length_filter_le _ _)
      refine List.nodup_cons.mpr ⟨fun again => ?_, ih _ (size ▸ shorter) _ rfl⟩
      have kept := (List.mem_filter.mp (List.mem_eraseDups.mp again)).2
      simp at kept

private theorem of_mem_eraseDups_map_filter {α β : Type} [DecidableEq β] {key : α → β}
    {held kind : β} {items : List α}
    (member : kind ∈ ((items.filter fun item => key item ≠ held).map key).eraseDups) :
    held ≠ kind ∧ ∃ item ∈ items, key item = kind := by
  obtain ⟨item, isItem, rfl⟩ := List.mem_map.mp (List.mem_eraseDups.mp member)
  obtain ⟨inItems, differ⟩ := List.mem_filter.mp isItem
  exact ⟨Ne.symm (of_decide_eq_true differ), item, inItems, rfl⟩

/-- Keys without repetitions stand in the order of the first items that have them. -/
private theorem pairwise_first_of_eraseDups {α β : Type} [DecidableEq β] (key : α → β)
    (items : List α) :
    (items.map key).eraseDups.Pairwise fun earlier later => ∃ first second,
      (items.filter fun item => key item = earlier).head? = some first ∧
      (items.filter fun item => key item = later).head? = some second ∧
      [first, second].Sublist items := by
  induction size : items.length using Nat.strongRecOn generalizing items with
  | ind _ ih =>
    cases items with
    | nil => exact List.Pairwise.nil
    | cons head rest =>
      have shorter : (rest.filter fun item => key item ≠ key head).length <
          (head :: rest).length := Nat.lt_succ_of_le (List.length_filter_le _ _)
      have others : (rest.map key).filter (fun item => !item == key head) =
          (rest.filter fun item => key item ≠ key head).map key := by
        rw [List.filter_map]
        refine congrArg _ (List.filter_congr fun item _ => ?_)
        by_cases same : key item = key head <;> simp [same]
      rw [List.map_cons, List.eraseDups_cons, others]
      refine List.pairwise_cons.mpr ⟨fun later member => ?_,
        (ih _ (size ▸ shorter) _ rfl).imp_of_mem ?_⟩
      · obtain ⟨differs, item, inRest, same⟩ := of_mem_eraseDups_map_filter member
        have found : item ∈ rest.filter fun item => key item = later :=
          List.mem_filter.mpr ⟨inRest, by simp [same]⟩
        obtain ⟨second, tail, cut⟩ := List.exists_cons_of_ne_nil (List.ne_nil_of_mem found)
        have isSecond : second ∈ rest := by
          have here : second ∈ rest.filter fun item => key item = later := by
            rw [cut]
            exact List.mem_cons_self
          exact List.mem_of_mem_filter here
        refine ⟨head, second, by simp, by simp [differs, cut], ?_⟩
        exact (List.singleton_sublist.mpr isSecond).cons_cons head
      · rintro earlier later earlierMember laterMember ⟨first, second, isFirst, isSecond, ordered⟩
        have skips {kind : β}
            (member : kind ∈ ((rest.filter fun item => key item ≠ key head).map key).eraseDups) :
            (head :: rest).filter (fun item => key item = kind) =
              (rest.filter fun item => key item ≠ key head).filter fun item => key item = kind := by
          obtain ⟨differs, _⟩ := of_mem_eraseDups_map_filter member
          rw [List.filter_cons_of_neg (by simpa using differs), List.filter_filter]
          refine List.filter_congr fun other _ => ?_
          by_cases equal : key other = kind
          · simp [equal, differs.symm]
          · simp [equal]
        refine ⟨first, second, ?_, ?_, (ordered.trans List.filter_sublist).cons head⟩
        · rw [skips earlierMember]
          exact isFirst
        · rw [skips laterMember]
          exact isSecond

/-! ## Built trees -/

namespace Node

/-- What building has put at a place of a tree, read off the node and the nodes above it. -/
structure Settled (config : Config) (models : Table Model) (parents : Parents)
    (operations : List Operation) (higher : List Node) (node : Node) : Prop where
  model_eq : node.model? = node.operation.resultModel? models
  path_eq : node.path = ((higher.filterMap (·.model?)).map (·.name)).reverse
  arguments_eq : node.arguments = node.operation.arguments config (higher.filterMap (·.model?))
  inherited_eq : node.inherited = node.operation.inherited config (higher.filterMap (·.model?))
  children_eq : node.children.map (·.operation) =
    parents.childrenOf (some node.operation.name) operations
  named : node.children = [] ∨ ∃ model, node.model? = some model ∧
    MethodName.assign config (some node.operation.name) (model.reserved config)
      (node.children.map (·.operation.name)) = .ok (node.children.map (·.method))

variable {config : Config} {models : Table Model} {parents : Parents}
  {operations : List Operation}

private theorem siblings_of_forall₂ {pairs : List (Operation × String)} {nodes : List Node}
    {pending : List Operation} {above : List Model} {path : List String}
    (every : List.Forall₂ (fun pair built =>
      Node.build config models parents pending above path pair.1 pair.2 = .ok built) pairs nodes) :
    nodes.map (·.operation) = pairs.map Prod.fst ∧ nodes.map (·.method) = pairs.map Prod.snd := by
  induction every with
  | nil => exact ⟨rfl, rfl⟩
  | cons placed _ ih =>
    have spec := built_of_build placed
    rw [List.map_cons, List.map_cons, List.map_cons, List.map_cons, ih.1, ih.2,
      spec.operation_eq, spec.method_eq]
    exact ⟨rfl, rfl⟩

/-- Operations with assigned methods, once built, are these operations under these methods. -/
theorem siblings_of_assign {parent? : Option String} {reserved : Table String}
    {children : List Operation} {methods : List String} {nodes : List Node}
    {pending : List Operation} {above : List Model} {path : List String}
    (assigned : MethodName.assign config parent? reserved (children.map (·.name)) = .ok methods)
    (every : List.Forall₂ (fun pair built =>
      Node.build config models parents pending above path pair.1 pair.2 = .ok built)
        (children.zip methods) nodes) :
    nodes.map (·.operation) = children ∧
      MethodName.assign config parent? reserved (nodes.map (·.operation.name)) =
        .ok (nodes.map (·.method)) := by
  have sameLength := MethodName.assign_length assigned
  rw [List.length_map] at sameLength
  obtain ⟨operationsEq, methodsEq⟩ := siblings_of_forall₂ every
  rw [List.map_fst_zip (Nat.le_of_eq sameLength.symm)] at operationsEq
  rw [List.map_snd_zip (Nat.le_of_eq sameLength)] at methodsEq
  refine ⟨operationsEq, ?_⟩
  rw [methodsEq, ← assigned, ← operationsEq, List.map_map]
  rfl

theorem Below.settled {root node : Node} {higher : List Node} {operation : Operation}
    {method : String} (below : root.Below higher node) (acyclic : parents.Acyclic)
    (placed : Node.build config models parents operations [] [] operation method = .ok root) :
    Settled config models parents operations higher node := by
  obtain ⟨pending, serves, nodePlaced⟩ := below.built acyclic placed
  have spec := built_of_build nodePlaced
  have whole := serves node.operation.name (acyclic.mem_lineage_self _)
  have children : node.children.map (·.operation) =
        parents.childrenOf (some node.operation.name) operations ∧
      (node.children = [] ∨ ∃ model, node.model? = some model ∧
        MethodName.assign config (some node.operation.name) (model.reserved config)
          (node.children.map (·.operation.name)) = .ok (node.children.map (·.method))) := by
    rw [← whole]
    rcases spec.children_built with ⟨none_, childless⟩ | ⟨model, methods, found, assigned, every⟩
    · rw [childless, none_]
      exact ⟨rfl, Or.inl rfl⟩
    · obtain ⟨operationsEq, namesEq⟩ := siblings_of_assign assigned every
      exact ⟨operationsEq, Or.inr ⟨model, found, namesEq⟩⟩
  exact {
    model_eq := spec.model_eq, path_eq := spec.path_eq
    arguments_eq := spec.arguments_eq, inherited_eq := spec.inherited_eq
    children_eq := children.1, named := children.2 }

end Node

namespace Forest

/-- A forest with the roots and children that parents give to some operations. -/
structure Grown (config : Config) (models : Table Model) (parents : Parents)
    (operations : List Operation) (forest : Forest) : Prop where
  kinds : forest.map Prod.fst = ((parents.childrenOf none operations).map (·.kind)).eraseDups
  roots : ∀ entry ∈ forest, entry.2.map (·.operation) =
    (parents.childrenOf none operations).filter fun operation => operation.kind = entry.1
  named : ∀ entry ∈ forest, MethodName.assign config none ∅
    (entry.2.map (·.operation.name)) = .ok (entry.2.map (·.method))
  settled : ∀ entry ∈ forest, ∀ root ∈ entry.2, ∀ higher node, root.Below higher node →
    Node.Settled config models parents operations higher node

variable {config : Config} {models : Table Model} {parents : Parents}
  {operations : List Operation} {forest : Forest}

theorem grown_of_build (acyclic : parents.Acyclic)
    (built : build config models parents operations = .ok forest) :
    Grown config models parents operations forest := by
  have every := Outcome.mapM_eq_ok_iff.mp built
  have spec : ∀ kind entry,
      buildKind config models parents operations (parents.childrenOf none operations) kind =
        .ok entry →
      entry.1 = kind ∧
        entry.2.map (·.operation) = (parents.childrenOf none operations).filter
          (fun operation => operation.kind = kind) ∧
        MethodName.assign config none ∅ (entry.2.map (·.operation.name)) =
          .ok (entry.2.map (·.method)) ∧
        ∀ root ∈ entry.2, ∃ operation method,
          Node.build config models parents operations [] [] operation method = .ok root := by
    intro kind entry placed
    obtain ⟨methods, assigned, later⟩ := Outcome.bind_eq_ok_iff.mp placed
    obtain ⟨nodes, nodesBuilt, same⟩ := Outcome.bind_eq_ok_iff.mp later
    cases same
    have paired := Outcome.mapM_eq_ok_iff.mp nodesBuilt
    obtain ⟨operationsEq, namesEq⟩ := Node.siblings_of_assign assigned paired
    refine ⟨rfl, operationsEq, namesEq, fun root member => ?_⟩
    obtain ⟨pair, _, rootBuilt⟩ := Outcome.exists_of_forall₂ paired member
    exact ⟨pair.1, pair.2, rootBuilt⟩
  have perEntry : ∀ entry ∈ forest, ∃ kind, buildKind config models parents operations
      (parents.childrenOf none operations) kind = .ok entry := fun entry member =>
    let ⟨kind, _, placed⟩ := Outcome.exists_of_forall₂ every member
    ⟨kind, placed⟩
  refine { kinds := ?_, roots := ?_, named := ?_, settled := ?_ }
  · generalize ((parents.childrenOf none operations).map (·.kind)).eraseDups = kinds at every
    clear perEntry built
    induction every with
    | nil => rfl
    | cons placed _ ih => rw [List.map_cons, (spec _ _ placed).1, ih]
  · intro entry member
    obtain ⟨kind, placed⟩ := perEntry entry member
    obtain ⟨kindEq, rootsEq, _, _⟩ := spec kind entry placed
    rw [kindEq, rootsEq]
  · intro entry member
    obtain ⟨kind, placed⟩ := perEntry entry member
    exact (spec kind entry placed).2.2.1
  · intro entry member root isRoot higher node below
    obtain ⟨kind, placed⟩ := perEntry entry member
    obtain ⟨operation, method, rootBuilt⟩ := (spec kind entry placed).2.2.2 root isRoot
    exact below.settled acyclic rootBuilt

theorem unbuilt_of_build {error : Error}
    (failed : build config models parents operations = .error error) :
    Node.Unbuilt config models parents operations error := by
  obtain ⟨kind, _, kindFailed⟩ := Outcome.exists_of_mapM_eq_error failed
  rcases Outcome.bind_eq_error_iff.mp kindFailed with unnamed | ⟨methods, _, later⟩
  · exact .noNames unnamed
  · rcases Outcome.bind_eq_error_iff.mp later with unplaced | ⟨nodes, _, impossible⟩
    · obtain ⟨root, paired, rootFailed⟩ := Outcome.exists_of_mapM_eq_error unplaced
      have isRoot := List.mem_of_mem_filter (List.of_mem_zip paired).1
      exact Node.unbuilt_of_build (fun _ member => member)
        (Parents.mem_childrenOf.mp isRoot).1 rootFailed
    · cases impossible

end Forest

/-! ## Every operation once -/

namespace Node

/-- The children of every node of a tree are the operations that have chosen it as parent. -/
def Faithful (parents : Parents) (operations : List Operation) (root : Node) : Prop :=
  ∀ node ∈ root.walk, node.children.map (·.operation) =
    parents.childrenOf (some node.operation.name) operations

section Faithful

variable {parents : Parents} {operations : List Operation}

theorem Faithful.child {root child : Node} (faithful : Faithful parents operations root)
    (isChild : child ∈ root.children) : Faithful parents operations child := fun node member =>
  faithful node (mem_walk.mpr (Or.inr ⟨child, isChild, member⟩))

theorem Faithful.parent_of_child {root node child : Node}
    (faithful : Faithful parents operations root) (member : node ∈ root.walk)
    (isChild : child ∈ node.children) :
    child.operation ∈ operations ∧
      parents.get? child.operation.name = some node.operation.name := by
  have chosen := List.mem_map_of_mem (f := (·.operation)) isChild
  rw [faithful node member] at chosen
  exact Parents.mem_childrenOf.mp chosen

theorem Faithful.root_mem_lineage {root node : Node} (faithful : Faithful parents operations root)
    (acyclic : parents.Acyclic) (member : node ∈ root.walk) :
    root.operation.name ∈ parents.lineage node.operation.name := by
  obtain ⟨above, below⟩ := mem_walk_iff_below.mp member
  induction below with
  | root => exact acyclic.mem_lineage_self _
  | @child above parent child higher isChild ih =>
    have inTree := mem_walk_iff_below.mpr ⟨above, higher⟩
    rw [acyclic.lineage_of_parent (faithful.parent_of_child inTree isChild).2]
    exact List.mem_cons_of_mem _ (ih inTree)

/-- Trees over distinct siblings hold no operation twice if each of them holds none twice. -/
private theorem nodup_walkAll {nodes : List Node} {parent? : Option String}
    (acyclic : parents.Acyclic) (distinct : (nodes.map (·.operation.name)).Nodup)
    (siblings : ∀ node ∈ nodes, parents.get? node.operation.name = parent?)
    (faithful : ∀ node ∈ nodes, Faithful parents operations node)
    (each : ∀ node ∈ nodes, (node.walk.map (·.operation.name)).Nodup) :
    ((walkAll nodes).map (·.operation.name)).Nodup := by
  induction nodes with
  | nil => exact List.nodup_nil
  | cons first rest ih =>
    have parts := List.nodup_cons.mp distinct
    rw [walkAll, List.map_append]
    refine List.nodup_append.mpr ⟨each first List.mem_cons_self,
      ih parts.2 (fun node member => siblings node (List.mem_cons_of_mem _ member))
        (fun node member => faithful node (List.mem_cons_of_mem _ member))
        (fun node member => each node (List.mem_cons_of_mem _ member)), ?_⟩
    intro name inFirst other inRest same
    obtain ⟨node, nodeMember, nodeName⟩ := List.mem_map.mp inFirst
    obtain ⟨lower, lowerMember, lowerName⟩ := List.mem_map.mp inRest
    obtain ⟨root, isRoot, inRoot⟩ := mem_walkAll.mp lowerMember
    have one := (faithful first List.mem_cons_self).root_mem_lineage acyclic nodeMember
    have two := (faithful root (List.mem_cons_of_mem _ isRoot)).root_mem_lineage acyclic inRoot
    rw [nodeName] at one
    rw [lowerName, ← same] at two
    have level : parents.get? first.operation.name = parents.get? root.operation.name :=
      (siblings first List.mem_cons_self).trans
        (siblings root (List.mem_cons_of_mem _ isRoot)).symm
    have equal := acyclic.eq_of_siblings level one two
    exact parts.1 (List.mem_map.mpr ⟨root, isRoot, equal.symm⟩)

theorem Faithful.nodup_walk {root : Node} (faithful : Faithful parents operations root)
    (acyclic : parents.Acyclic) (distinct : (operations.map (·.name)).Nodup) :
    (root.walk.map (·.operation.name)).Nodup := by
  induction root using induction_children with
  | step root ih =>
    have atRoot : root ∈ root.walk := mem_walk.mpr (Or.inl rfl)
    rw [walk_eq_cons, List.map_cons]
    refine List.nodup_cons.mpr ⟨fun again => ?_, nodup_walkAll acyclic ?_
      (fun child isChild => (faithful.parent_of_child atRoot isChild).2)
      (fun child isChild => faithful.child isChild)
      (fun child isChild => ih child isChild (faithful.child isChild))⟩
    · obtain ⟨lower, member, same⟩ := List.mem_map.mp again
      obtain ⟨child, isChild, inChild⟩ := mem_walkAll.mp member
      have passes := (faithful.child isChild).root_mem_lineage acyclic inChild
      rw [same] at passes
      exact acyclic.not_mem_lineage_parent (faithful.parent_of_child atRoot isChild).2 passes
    · have names : root.children.map (·.operation.name) =
          (parents.childrenOf (some root.operation.name) operations).map (·.name) := by
        rw [← faithful root atRoot, List.map_map]
        rfl
      rw [names]
      exact distinct.sublist (List.filter_sublist.map _)

end Faithful

end Node

namespace Forest

variable {config : Config} {models : Table Model} {parents : Parents}
  {operations : List Operation} {forest : Forest}

theorem Grown.faithful (grown : Grown config models parents operations forest)
    {entry : OperationKind × List Node} (member : entry ∈ forest) {root : Node}
    (isRoot : root ∈ entry.2) : Node.Faithful parents operations root := by
  intro node inTree
  obtain ⟨higher, below⟩ := Node.mem_walk_iff_below.mp inTree
  exact (grown.settled entry member root isRoot higher node below).children_eq

theorem Grown.root_spec (grown : Grown config models parents operations forest)
    {entry : OperationKind × List Node} (member : entry ∈ forest) {root : Node}
    (isRoot : root ∈ entry.2) :
    root.operation ∈ operations ∧ parents.get? root.operation.name = none ∧
      root.operation.kind = entry.1 := by
  have chosen := List.mem_map_of_mem (f := (·.operation)) isRoot
  rw [grown.roots entry member] at chosen
  obtain ⟨isRootOperation, sameKind⟩ := List.mem_filter.mp chosen
  obtain ⟨isOperation, noParent⟩ := Parents.mem_childrenOf.mp isRootOperation
  exact ⟨isOperation, noParent, by simpa using sameKind⟩

theorem Grown.exists_settled (grown : Grown config models parents operations forest) {node : Node}
    (member : node ∈ forest.walk) :
    ∃ higher, Node.Settled config models parents operations higher node := by
  obtain ⟨entry, isEntry, root, isRoot, inTree⟩ := mem_walk.mp member
  obtain ⟨higher, below⟩ := Node.mem_walk_iff_below.mp inTree
  exact ⟨higher, grown.settled entry isEntry root isRoot higher node below⟩

theorem Grown.operation_mem (grown : Grown config models parents operations forest) {node : Node}
    (member : node ∈ forest.walk) : node.operation ∈ operations := by
  obtain ⟨entry, isEntry, root, isRoot, inTree⟩ := mem_walk.mp member
  obtain ⟨higher, below⟩ := Node.mem_walk_iff_below.mp inTree
  cases below with
  | root => exact (grown.root_spec isEntry isRoot).1
  | @child above parent _ higherBelow isChild =>
    exact ((grown.faithful isEntry isRoot).parent_of_child
      (Node.mem_walk_iff_below.mpr ⟨above, higherBelow⟩) isChild).1

theorem Grown.nodup_walk (grown : Grown config models parents operations forest)
    (acyclic : parents.Acyclic) (distinct : (operations.map (·.name)).Nodup) :
    (forest.walk.map (·.operation.name)).Nodup := by
  have kindsDistinct : (forest.map Prod.fst).Nodup := by
    rw [grown.kinds]
    exact nodup_eraseDups _
  have spec := grown
  have rootName {entry : OperationKind × List Node} (member : entry ∈ forest) {node : Node}
      (inTrees : node ∈ Node.walkAll entry.2) :
      ∃ root ∈ entry.2, root.operation.name ∈ parents.lineage node.operation.name := by
    obtain ⟨root, isRoot, inTree⟩ := Node.mem_walkAll.mp inTrees
    exact ⟨root, isRoot, (spec.faithful member isRoot).root_mem_lineage acyclic inTree⟩
  rw [walk, List.map_flatMap, List.nodup_flatMap]
  constructor
  · intro entry member
    refine Node.nodup_walkAll acyclic ?_
      (fun root isRoot => (spec.root_spec member isRoot).2.1)
      (fun root isRoot => spec.faithful member isRoot)
      (fun root isRoot => (spec.faithful member isRoot).nodup_walk acyclic distinct)
    have names : entry.2.map (·.operation.name) =
        ((parents.childrenOf none operations).filter fun operation =>
          operation.kind = entry.1).map (·.name) := by
      rw [← spec.roots entry member, List.map_map]
      rfl
    rw [names]
    exact distinct.sublist ((List.filter_sublist.trans List.filter_sublist).map _)
  · refine (List.Pairwise.of_map Prod.fst (fun _ _ differ => differ) kindsDistinct).imp_of_mem ?_
    intro first second firstMember secondMember differ name inFirst inSecond
    obtain ⟨node, nodeMember, nodeName⟩ := List.mem_map.mp inFirst
    obtain ⟨other, otherMember, otherName⟩ := List.mem_map.mp inSecond
    obtain ⟨root, isRoot, passes⟩ := rootName firstMember nodeMember
    obtain ⟨otherRoot, isOtherRoot, otherPasses⟩ := rootName secondMember otherMember
    have rootSpec := spec.root_spec firstMember isRoot
    have otherSpec := spec.root_spec secondMember isOtherRoot
    rw [nodeName] at passes
    rw [otherName] at otherPasses
    have same := acyclic.eq_of_siblings (rootSpec.2.1.trans otherSpec.2.1.symm) passes otherPasses
    have equal := List.inj_on_of_nodup_map distinct rootSpec.1 otherSpec.1 same
    exact differ (rootSpec.2.2.symm.trans ((congrArg Operation.kind equal).trans otherSpec.2.2))

/-- Every operation is placed: a root among the roots of its kind, and any other one below the node
of its parent, which has a smaller rank. -/
theorem Grown.exists_node (grown : Grown config models parents operations forest)
    (acyclic : parents.Acyclic)
    (known : ∀ child parent, parents.get? child = some parent →
      ∃ operation ∈ operations, operation.name = parent)
    {operation : Operation} (member : operation ∈ operations) :
    ∃ node ∈ forest.walk, node.operation = operation := by
  obtain ⟨rank, grows⟩ := acyclic
  induction height : rank operation.name using Nat.strongRecOn generalizing operation with
  | ind _ ih =>
    cases found : parents.get? operation.name with
    | none =>
      have isRoot := Parents.mem_childrenOf.mpr ⟨member, found⟩
      have kindMember : operation.kind ∈ forest.map Prod.fst := by
        rw [grown.kinds, List.mem_eraseDups]
        exact List.mem_map_of_mem isRoot
      obtain ⟨entry, isEntry, sameKind⟩ := List.mem_map.mp kindMember
      have placed : operation ∈ entry.2.map (·.operation) := by
        rw [grown.roots entry isEntry]
        exact List.mem_filter.mpr ⟨isRoot, by simp [sameKind]⟩
      obtain ⟨root, isPlaced, same⟩ := List.mem_map.mp placed
      exact ⟨root, mem_walk.mpr ⟨entry, isEntry, root, isPlaced,
        Node.mem_walk.mpr (Or.inl rfl)⟩, same⟩
    | some parentName =>
      obtain ⟨parent, parentMember, sameName⟩ := known operation.name parentName found
      have lower := grows operation.name parentName found
      rw [height, ← sameName] at lower
      obtain ⟨node, inForest, nodeOperation⟩ := ih (rank parent.name) lower parentMember rfl
      obtain ⟨entry, isEntry, root, isRoot, inTree⟩ := mem_walk.mp inForest
      have placed : operation ∈ node.children.map (·.operation) := by
        rw [grown.faithful isEntry isRoot node inTree, nodeOperation, sameName]
        exact Parents.mem_childrenOf.mpr ⟨member, found⟩
      obtain ⟨child, isChild, same⟩ := List.mem_map.mp placed
      exact ⟨child, mem_walk_of_child inForest isChild, same⟩

/-- The forest holds exactly the operations, each once. -/
theorem Grown.walk_perm (grown : Grown config models parents operations forest)
    (acyclic : parents.Acyclic) (distinct : (operations.map (·.name)).Nodup)
    (known : ∀ child parent, parents.get? child = some parent →
      ∃ operation ∈ operations, operation.name = parent) :
    (forest.walk.map (·.operation)).Perm operations := by
  have walkDistinct : (forest.walk.map (·.operation)).Nodup := by
    have names := grown.nodup_walk acyclic distinct
    have composed : forest.walk.map (·.operation.name) =
        (forest.walk.map (·.operation)).map (·.name) := by
      rw [List.map_map]
      rfl
    rw [composed] at names
    exact names.of_map
  refine (List.perm_ext_iff_of_nodup walkDistinct distinct.of_map).mpr fun operation => ?_
  constructor
  · intro member
    obtain ⟨node, inForest, same⟩ := List.mem_map.mp member
    exact same ▸ grown.operation_mem inForest
  · intro member
    obtain ⟨node, inForest, same⟩ := grown.exists_node acyclic known member
    exact List.mem_map.mpr ⟨node, inForest, same⟩

/-- The operations from a node up to its root are the lineage of its operation. -/
theorem Grown.lineage_eq (grown : Grown config models parents operations forest)
    (acyclic : parents.Acyclic) {entry : OperationKind × List Node} (member : entry ∈ forest)
    {root node : Node} (isRoot : root ∈ entry.2) {above : List Node}
    (below : root.Below above node) :
    (node :: above).map (·.operation.name) = parents.lineage node.operation.name := by
  induction below with
  | root => rw [acyclic.lineage_of_root (grown.root_spec member isRoot).2.1]; rfl
  | @child above parent child higher isChild ih =>
    have chosen := (grown.faithful member isRoot).parent_of_child
      (Node.mem_walk_iff_below.mpr ⟨above, higher⟩) isChild
    rw [acyclic.lineage_of_parent chosen.2, ← ih]
    rfl

/-- The node right above another one is that of the chosen parent, and a root has chosen none. -/
theorem Grown.get?_of_below (grown : Grown config models parents operations forest)
    {entry : OperationKind × List Node} (isEntry : entry ∈ forest) {root node : Node}
    (isRoot : root ∈ entry.2) {above : List Node} (below : root.Below above node) :
    parents.get? node.operation.name = above.head?.map (·.operation.name) := by
  cases below with
  | root => exact (grown.root_spec isEntry isRoot).2.1
  | @child higher parent child isParent isChild =>
    exact ((grown.faithful isEntry isRoot).parent_of_child
      (Node.mem_walk_iff_below.mpr ⟨higher, isParent⟩) isChild).2

/-- A forest that holds every one of some operations once and keeps their order at every place. -/
structure Arranges (forest : Forest) (operations : List Operation) : Prop where
  once : (forest.walk.map (·.operation)).Perm operations
  distinctUpward : ∀ entry ∈ forest, ∀ root ∈ entry.2, ∀ above node, root.Below above node →
    ((node :: above).map (·.operation.name)).Nodup
  siblingOrder : ∀ node ∈ forest.walk, (node.children.map (·.operation)).Sublist operations
  rootOrder : ∀ entry ∈ forest, (entry.2.map (·.operation)).Sublist operations
  ownKind : ∀ entry ∈ forest, ∀ root ∈ entry.2, root.operation.kind = entry.1
  kindsDistinct : (forest.map Prod.fst).Nodup
  kindsInhabited : ∀ entry ∈ forest, entry.2 ≠ []
  kindOrder : forest.Pairwise fun earlier later => ∃ first second,
    earlier.2.head? = some first ∧ later.2.head? = some second ∧
      operations.idxOf first.operation < operations.idxOf second.operation

private theorem idxOf_lt_of_sublist {items : List Operation} {first second : Operation}
    (distinct : items.Nodup) (ordered : [first, second].Sublist items) :
    items.idxOf first < items.idxOf second := by
  induction items with
  | nil => cases ordered
  | cons head rest ih =>
    have parts := List.nodup_cons.mp distinct
    cases ordered with
    | cons _ later =>
      have firstMember : first ∈ rest := later.subset List.mem_cons_self
      have secondMember : second ∈ rest :=
        later.subset (List.mem_cons_of_mem _ (List.mem_singleton_self second))
      have firstDiffers : head ≠ first := fun same => parts.1 (same ▸ firstMember)
      have secondDiffers : head ≠ second := fun same => parts.1 (same ▸ secondMember)
      rw [List.idxOf_cons_ne _ firstDiffers, List.idxOf_cons_ne _ secondDiffers]
      exact Nat.succ_lt_succ (ih parts.2 later)
    | cons_cons _ later =>
      have secondMember : second ∈ rest := List.singleton_sublist.mp later
      have secondDiffers : first ≠ second := fun same => parts.1 (same ▸ secondMember)
      rw [List.idxOf_cons_self, List.idxOf_cons_ne _ secondDiffers]
      exact Nat.succ_pos _

theorem Grown.arranges (grown : Grown config models parents operations forest)
    (acyclic : parents.Acyclic) (distinct : (operations.map (·.name)).Nodup)
    (known : ∀ child parent, parents.get? child = some parent →
      ∃ operation ∈ operations, operation.name = parent) : forest.Arranges operations where
  once := grown.walk_perm acyclic distinct known
  distinctUpward := by
    intro entry isEntry root isRoot above node below
    rw [grown.lineage_eq acyclic isEntry isRoot below]
    exact (acyclic.climb_lineage _).nodup acyclic
  siblingOrder := by
    intro node inForest
    obtain ⟨entry, isEntry, root, isRoot, inTree⟩ := mem_walk.mp inForest
    rw [grown.faithful isEntry isRoot node inTree]
    exact List.filter_sublist
  rootOrder := by
    intro entry isEntry
    rw [grown.roots entry isEntry]
    exact List.filter_sublist.trans List.filter_sublist
  ownKind := fun entry isEntry root isRoot => (grown.root_spec isEntry isRoot).2.2
  kindsDistinct := by
    rw [grown.kinds]
    exact nodup_eraseDups _
  kindsInhabited := by
    intro entry isEntry empty
    have kindMember := List.mem_map_of_mem (f := Prod.fst) isEntry
    rw [grown.kinds, List.mem_eraseDups] at kindMember
    obtain ⟨operation, isRoot, sameKind⟩ := List.mem_map.mp kindMember
    have placed : operation ∈ entry.2.map (·.operation) := by
      rw [grown.roots entry isEntry]
      exact List.mem_filter.mpr ⟨isRoot, by simp [sameKind]⟩
    rw [empty] at placed
    cases placed
  kindOrder := by
    have spec := grown
    have ordered := pairwise_first_of_eraseDups Operation.kind (parents.childrenOf none operations)
    rw [← grown.kinds] at ordered
    refine (List.Pairwise.of_map Prod.fst (fun _ _ related => related) ordered).imp_of_mem ?_
    rintro earlier later isEarlier isLater ⟨first, second, isFirst, isSecond, before⟩
    rw [← spec.roots earlier isEarlier, List.head?_map] at isFirst
    rw [← spec.roots later isLater, List.head?_map] at isSecond
    obtain ⟨firstRoot, firstFound, rfl⟩ := Option.map_eq_some_iff.mp isFirst
    obtain ⟨secondRoot, secondFound, rfl⟩ := Option.map_eq_some_iff.mp isSecond
    exact ⟨firstRoot, secondRoot, firstFound, secondFound,
      idxOf_lt_of_sublist distinct.of_map (before.trans List.filter_sublist)⟩

theorem mem_leftOut {name : String} : name ∈ forest.leftOut operations ↔
    (∃ operation ∈ operations, operation.name = name) ∧
      ∀ node ∈ forest.walk, node.operation.name ≠ name := by
  simp [leftOut]

theorem leftOut_eq_nil (arranges : forest.Arranges operations) :
    forest.leftOut operations = [] := by
  refine List.eq_nil_iff_forall_not_mem.mpr fun name out => ?_
  obtain ⟨⟨operation, isOperation, sameName⟩, missing⟩ := mem_leftOut.mp out
  obtain ⟨node, inForest, placed⟩ := List.mem_map.mp (arranges.once.mem_iff.mpr isOperation)
  exact missing node inForest (placed ▸ sameName)

/-- A forest of some operations is built and leaves none of them out. -/
theorem of_ofParents (placed : ofParents config models parents operations = .ok forest) :
    build config models parents operations = .ok forest ∧
      ∀ operation ∈ operations, ∃ node ∈ forest.walk, node.operation.name = operation.name := by
  obtain ⟨built, isBuilt, later⟩ := Outcome.bind_eq_ok_iff.mp placed
  cases names : built.leftOut operations with
  | cons name rest =>
    rw [names] at later
    cases later
  | nil =>
    rw [names] at later
    cases later
    refine ⟨isBuilt, fun operation isOperation => ?_⟩
    by_contra missing
    have out : operation.name ∈ forest.leftOut operations :=
      mem_leftOut.mpr ⟨⟨operation, isOperation, rfl⟩,
        fun node inForest same => missing ⟨node, inForest, same⟩⟩
    rw [names] at out
    cases out

theorem outcome_assemble (config : Config) (models : Table Model) (candidates : Candidates)
    (operations : List Operation) :
    (assemble config models candidates operations).outcome =
      ofParents config models (Parents.ofCandidates candidates operations) operations := rfl

/-- Operations whose parents are chosen from known operations with models are all placed, unless
some siblings cannot be given names. -/
theorem arranges_or_unnamed (acyclic : parents.Acyclic)
    (distinct : (operations.map (·.name)).Nodup)
    (known : ∀ child parent, parents.get? child = some parent → ∃ operation ∈ operations,
      operation.name = parent ∧ (operation.resultModel? models).isSome) :
    (∃ parent? reserved names error,
      MethodName.assign config parent? reserved names = .error error ∧
        ofParents config models parents operations = .error error) ∨
    ∃ forest, ofParents config models parents operations = .ok forest ∧
      Grown config models parents operations forest ∧ forest.Arranges operations := by
  cases built : build config models parents operations with
  | error error =>
    left
    have failed : ofParents config models parents operations = .error error :=
      Outcome.bind_eq_error_iff.mpr (Or.inl built)
    cases unbuilt_of_build built with
    | @noModel operation child isOperation chosen lacking =>
      obtain ⟨parent, isParent, sameName, hasModel⟩ := known child.name operation.name chosen
      have same := List.inj_on_of_nodup_map distinct isParent isOperation sameName
      rw [same, lacking] at hasModel
      cases hasModel
    | @noNames parent? reserved names _ unnamed =>
      exact ⟨parent?, reserved, names, error, unnamed, failed⟩
  | ok forest =>
    right
    have grown := grown_of_build acyclic built
    have arranges := grown.arranges acyclic distinct fun child parent chosen =>
      let ⟨operation, member, sameName, _⟩ := known child parent chosen
      ⟨operation, member, sameName⟩
    refine ⟨forest, Outcome.bind_eq_ok_iff.mpr ⟨forest, built, ?_⟩, grown, arranges⟩
    rw [leftOut_eq_nil arranges]
    rfl

/-- Whatever the candidates are, the choosing loop keeps the parents acyclic, so every way up ends.
If every candidate is an operation with a result model, assembling fails only for want of method
names, and otherwise gives a forest that holds every operation once and in order. -/
theorem assemble_places_once (config : Config) (models : Table Model) (candidates : Candidates)
    (operations : List Operation) (distinct : (operations.map (·.name)).Nodup) :
    (∀ taken, taken <+: operations →
      (Parents.ofCandidates candidates taken).Acyclic ∧
      ∀ start, (Parents.ofCandidates candidates taken).Climb start
        ((Parents.ofCandidates candidates taken).lineage start)) ∧
    ((∀ operation ∈ operations, ∀ candidate ∈ (candidates.get? operation.name).getD [],
        ∃ parent ∈ operations, parent.name = candidate.parent ∧
          (parent.resultModel? models).isSome) →
      (∃ name first second parent?, (assemble config models candidates operations).outcome =
        .error (.methodConflict name first second parent?)) ∨
      ∃ forest, (assemble config models candidates operations).outcome = .ok forest ∧
        forest.Arranges operations) := by
  constructor
  · intro taken _
    have acyclic := Parents.acyclic_ofCandidates candidates taken
    exact ⟨acyclic, acyclic.climb_lineage⟩
  · intro suitable
    have known : ∀ child parent,
        (Parents.ofCandidates candidates operations).get? child = some parent →
        ∃ operation ∈ operations, operation.name = parent ∧
          (operation.resultModel? models).isSome := by
      intro child parent chosen
      obtain ⟨operation, isOperation, rfl, candidate, isCandidate, rfl⟩ :=
        Parents.get?_ofCandidates chosen
      exact suitable operation isOperation candidate isCandidate
    have acyclic := Parents.acyclic_ofCandidates candidates operations
    rw [outcome_assemble]
    rcases arranges_or_unnamed acyclic distinct known with
      ⟨parent?, reserved, names, error, unnamed, failed⟩ | ⟨forest, placed, _, arranges⟩
    · obtain ⟨name, first, second, rfl, _⟩ := MethodName.assign_error unnamed
      exact Or.inl ⟨name, first, second, parent?, failed⟩
    · exact Or.inr ⟨forest, placed, arranges⟩

private def loopOperation (name : String) (index : Nat) : Operation :=
  ⟨name, .query, [], "shelf", "Shelf", false, false, some "Shelf", none, index⟩

private def loopCandidates : Candidates := Table.ofList
  [("shelf", [⟨"shelf", [], 0⟩, ⟨"book", [], 1⟩]), ("book", [⟨"shelf", [], 0⟩, ⟨"book", [], 1⟩])]

/-- Two operations that each name themselves and the other one as parents. -/
theorem assemble_places_once_mutual :
    let operations := [loopOperation "shelf" 0, loopOperation "book" 1]
    let models := Table.ofList [("Shelf", ⟨"Shelf", "Shelf", [], "shelf", .fragment, []⟩)]
    (operations.map (·.name)).Nodup ∧
    (∀ operation ∈ operations, ∀ candidate ∈ (loopCandidates.get? operation.name).getD [],
      ∃ parent ∈ operations, parent.name = candidate.parent ∧
        (parent.resultModel? models).isSome) ∧
    ((∃ name first second parent?, (assemble {} models loopCandidates operations).outcome =
        .error (.methodConflict name first second parent?)) ∨
      ∃ forest, (assemble {} models loopCandidates operations).outcome = .ok forest ∧
        forest.Arranges operations) := by
  intro operations models
  have distinct : (operations.map (·.name)).Nodup := by decide
  have suitable : ∀ operation ∈ operations,
      ∀ candidate ∈ (loopCandidates.get? operation.name).getD [],
      ∃ parent ∈ operations, parent.name = candidate.parent ∧
        (parent.resultModel? models).isSome := by decide
  exact ⟨distinct, suitable,
    (assemble_places_once {} models loopCandidates operations distinct).2 suitable⟩

end Forest

end ChainedSdk
