import ChainedSdk.Proofs.Placement
import Mathlib
/-!
# Splitting variables anew

The models above a node decide which of its variables it inherits and which stay arguments. Splitting
a forest anew touches nothing else, whatever the forest looks like. Where every node holds its split
already nothing changes at all, and so it is in an assembled forest.
-/

namespace ChainedSdk

namespace Node

variable {config : Config}

theorem reinheritAll_eq_map (config : Config) (above : List Model) (nodes : List Node) :
    reinheritAll config above nodes = nodes.map (reinherit config above) := by
  induction nodes with
  | nil => rfl
  | cons node rest ih => rw [reinheritAll, ih, List.map_cons]

theorem reinherit_eq (config : Config) (above : List Model) (node : Node) :
    node.reinherit config above = { node with
      arguments := node.operation.arguments config above
      inherited := node.operation.inherited config above
      children := node.children.map (reinherit config (node.model?.toList ++ above)) } := by
  cases node
  rw [reinherit, reinheritAll_eq_map]

/-! ## What is kept -/

mutual

/-- A tree without the splits of its nodes. -/
def skeleton : Node → Node
  | ⟨operation, method, path, _, _, model?, children⟩ =>
    ⟨operation, method, path, [], [], model?, skeletons children⟩

def skeletons : List Node → List Node
  | [] => []
  | node :: rest => node.skeleton :: skeletons rest

end

theorem skeletons_eq_map (nodes : List Node) : skeletons nodes = nodes.map skeleton := by
  induction nodes with
  | nil => rfl
  | cons node rest ih => rw [skeletons, ih, List.map_cons]

theorem skeleton_eq (node : Node) :
    node.skeleton = { node with
      arguments := [], inherited := [], children := node.children.map skeleton } := by
  cases node
  rw [skeleton, skeletons_eq_map]

theorem skeleton_reinherit (above : List Model) (node : Node) :
    (node.reinherit config above).skeleton = node.skeleton := by
  induction node using induction_children generalizing above with
  | step node ih =>
    have below : (node.children.map (reinherit config (node.model?.toList ++ above))).map skeleton =
        node.children.map skeleton := by
      rw [List.map_map]
      apply List.map_congr_left
      intro child member
      exact ih child member _
    rw [reinherit_eq, skeleton_eq, skeleton_eq]
    simp only [below]

/-! ## Splits in place -/

/-- Every node of a tree holds the split of its variables under the models above it. -/
def Apportioned (config : Config) (above : List Model) (root : Node) : Prop :=
  ∀ higher node, root.Below higher node →
    node.arguments = node.operation.arguments config (higher.filterMap (·.model?) ++ above) ∧
    node.inherited = node.operation.inherited config (higher.filterMap (·.model?) ++ above)

theorem Below.root_or_child {root node : Node} {higher : List Node}
    (below : root.Below higher node) :
    (higher = [] ∧ node = root) ∨
      ∃ child ∈ root.children, ∃ lower, higher = lower ++ [root] ∧ child.Below lower node := by
  induction below with
  | root => exact Or.inl ⟨rfl, rfl⟩
  | @child above parent child _ isChild ih =>
    right
    rcases ih with ⟨rfl, rfl⟩ | ⟨top, isTop, lower, rfl, deeper⟩
    · exact ⟨child, isChild, [], rfl, .root⟩
    · exact ⟨top, isTop, parent :: lower, rfl, .child deeper isChild⟩

theorem apportioned_iff {above : List Model} {root : Node} :
    root.Apportioned config above ↔
      root.arguments = root.operation.arguments config above ∧
      root.inherited = root.operation.inherited config above ∧
      ∀ child ∈ root.children, child.Apportioned config (root.model?.toList ++ above) := by
  have models (lower : List Node) : (lower ++ [root]).filterMap (·.model?) ++ above =
      lower.filterMap (·.model?) ++ (root.model?.toList ++ above) := by
    rw [List.filterMap_append, List.append_assoc]
    cases found : root.model? <;> simp [found]
  constructor
  · intro whole
    have atRoot := whole [] root .root
    refine ⟨atRoot.1, atRoot.2, ?_⟩
    intro child isChild lower node below
    rw [← models lower]
    exact whole _ node (below.lift isChild)
  · rintro ⟨arguments, inherited, children⟩ higher node below
    rcases below.root_or_child with ⟨rfl, rfl⟩ | ⟨child, isChild, lower, rfl, deeper⟩
    · exact ⟨arguments, inherited⟩
    · rw [models lower]
      exact children child isChild lower node deeper

theorem apportioned_reinherit (above : List Model) (node : Node) :
    (node.reinherit config above).Apportioned config above := by
  induction node using induction_children generalizing above with
  | step node ih =>
    rw [reinherit_eq, apportioned_iff]
    refine ⟨rfl, rfl, ?_⟩
    intro child isChild
    obtain ⟨original, member, rfl⟩ := List.mem_map.mp isChild
    exact ih original member _

theorem Apportioned.reinherit_eq_self {above : List Model} {node : Node}
    (apportioned : node.Apportioned config above) : node.reinherit config above = node := by
  induction node using induction_children generalizing above with
  | step node ih =>
    obtain ⟨arguments, inherited, children⟩ := apportioned_iff.mp apportioned
    have same : node.children.map (reinherit config (node.model?.toList ++ above)) =
        node.children := by
      refine (List.map_congr_left ?_).trans (List.map_id _)
      intro child member
      exact ih child member (children child member)
    rw [reinherit_eq, same, ← arguments, ← inherited]
    cases node
    rfl

end Node

namespace Forest

variable {config : Config}

def skeleton (forest : Forest) : Forest :=
  forest.map fun entry => (entry.1, Node.skeletons entry.2)

/-- Every node of a forest holds the split of its variables under the models above it. -/
def Apportioned (config : Config) (forest : Forest) : Prop :=
  ∀ entry ∈ forest, ∀ root ∈ entry.2, root.Apportioned config []

theorem skeleton_reinherit (config : Config) (forest : Forest) :
    (forest.reinherit config).skeleton = forest.skeleton := by
  unfold skeleton reinherit
  rw [List.map_map]
  apply List.map_congr_left
  intro entry _
  apply Prod.ext
  · rfl
  · change Node.skeletons (Node.reinheritAll config [] entry.2) = Node.skeletons entry.2
    rw [Node.reinheritAll_eq_map, Node.skeletons_eq_map, Node.skeletons_eq_map, List.map_map]
    apply List.map_congr_left
    intro root _
    exact Node.skeleton_reinherit [] root

theorem apportioned_reinherit (config : Config) (forest : Forest) :
    (forest.reinherit config).Apportioned config := by
  intro entry isEntry root isRoot
  obtain ⟨original, _, rfl⟩ := List.mem_map.mp isEntry
  simp only [Node.reinheritAll_eq_map] at isRoot
  obtain ⟨before, _, rfl⟩ := List.mem_map.mp isRoot
  exact Node.apportioned_reinherit [] before

theorem Apportioned.reinherit_eq_self {forest : Forest} (apportioned : forest.Apportioned config) :
    forest.reinherit config = forest := by
  refine (List.map_congr_left ?_).trans (List.map_id _)
  intro entry isEntry
  apply Prod.ext
  · rfl
  · change Node.reinheritAll config [] entry.2 = entry.2
    rw [Node.reinheritAll_eq_map]
    refine (List.map_congr_left ?_).trans (List.map_id _)
    intro root isRoot
    exact (apportioned entry isEntry root isRoot).reinherit_eq_self

theorem Grown.apportioned {models : Table Model} {parents : Parents} {operations : List Operation}
    {forest : Forest} (grown : Grown config models parents operations forest) :
    forest.Apportioned config := by
  intro entry isEntry root isRoot higher node below
  have settled := grown.settled entry isEntry root isRoot higher node below
  rw [List.append_nil]
  exact ⟨settled.arguments_eq, settled.inherited_eq⟩

theorem apportioned_of_assemble {models : Table Model} {candidates : Candidates}
    {operations : List Operation} {forest : Forest}
    (assembled : (assemble config models candidates operations).outcome = .ok forest) :
    forest.Apportioned config := by
  rw [outcome_assemble] at assembled
  obtain ⟨placed, built, onward⟩ := Outcome.bind_eq_ok_iff.mp assembled
  have same : placed = forest := by
    split at onward
    · exact Except.ok.inj onward
    · cases onward
  have grown := grown_of_build (Parents.acyclic_ofCandidates candidates operations) built
  rw [← same]
  exact grown.apportioned

/-- Splitting an assembled forest anew under the configuration that it was assembled with gives it
back. On every forest, under every configuration, splitting anew once or twice is the same; kinds,
the shape of the trees and the operation, method, path and model of every node stay; and every node
then holds the split of its variables under the models above it, nearest first. -/
theorem reinherit_recomputes (config : Config) :
    (∀ models candidates operations forest,
      (assemble config models candidates operations).outcome = .ok forest →
        forest.reinherit config = forest) ∧
    ∀ forest : Forest,
      (forest.reinherit config).reinherit config = forest.reinherit config ∧
      (forest.reinherit config).skeleton = forest.skeleton ∧
      (forest.reinherit config).Apportioned config := by
  constructor
  · intro models candidates operations forest assembled
    exact (apportioned_of_assemble assembled).reinherit_eq_self
  · intro forest
    have apportioned := apportioned_reinherit config forest
    exact ⟨apportioned.reinherit_eq_self, skeleton_reinherit config forest, apportioned⟩

private def bookOperation (name : String) (index : Nat) : Operation where
  name := name
  kind := .query
  inputs := [⟨"id", "ID", "ID!", false, false, false, true⟩]
  fieldName := name
  resultType := "Book"
  isList := false
  isOptional := false
  model? := some "Book"
  location? := none
  index := index

private def bookOperations : List Operation :=
  [bookOperation "book" 0, bookOperation "pages" 1]

private def bookKey : ModelField where
  name := "id"
  fieldName := "id"
  type := { name := "ID", kind := .scalar }
  isOptional := false

private def bookModels : Table Model :=
  Table.ofList [("Book", ⟨"Book", "Book", [bookKey], "book", .fragment, []⟩)]

private def bookCandidates : Candidates := Table.ofList [("pages", [⟨"book", [], 0⟩])]

/-- An operation below another one inherits its variable, and splitting anew keeps it so. -/
theorem reinherit_recomputes_book : ∃ forest,
    (assemble {} bookModels bookCandidates bookOperations).outcome = .ok forest ∧
    (∃ node ∈ forest.walk, node.inherited.map (·.field) = ["id"]) ∧
    forest.reinherit {} = forest := by
  have whole : ((assemble {} bookModels bookCandidates bookOperations).outcome.map fun forest =>
        forest.walk.any fun node => node.inherited.map (·.field) = ["id"]) = .ok true := by
    cbv
  obtain ⟨forest, assembled, inherits⟩ := Outcome.map_eq_ok_iff.mp whole
  obtain ⟨node, member, field⟩ := List.any_eq_true.mp inherits
  exact ⟨forest, assembled, ⟨node, member, of_decide_eq_true field⟩,
    (reinherit_recomputes {}).1 _ _ _ forest assembled⟩

end Forest

end ChainedSdk
