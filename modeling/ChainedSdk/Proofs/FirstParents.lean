import ChainedSdk.Proofs.Extensions
import ChainedSdk.Proofs.Placement
import Mathlib.Data.List.TakeWhile
import Mathlib.Logic.Relation
/-!
# First parents

What the choosing loop comes to, said of the finished parents alone. The loop passes a candidate
over when it stands below the operation at that time. Whoever stands below an operation still does
when all have chosen, and nobody stands below their own child, so in the end every parent is the
first candidate that is neither the operation itself nor below it.
-/

namespace ChainedSdk

open Relation

namespace Parents

/-- The first operation is the second one or stands below it. -/
def AtOrBelow (parents : Parents) : String → String → Prop :=
  ReflTransGen fun child parent => parents.get? child = some parent

/-- Everybody who has a parent still has it later. -/
def Keeps (parents later : Parents) : Prop :=
  ∀ child parent, parents.get? child = some parent → later.get? child = some parent

variable {parents later : Parents} {low high : String}

theorem AtOrBelow.mono (keeps : parents.Keeps later) (below : parents.AtOrBelow low high) :
    later.AtOrBelow low high :=
  ReflTransGen.mono keeps _ _ below

theorem Acyclic.mem_lineage_iff (acyclic : parents.Acyclic) :
    high ∈ parents.lineage low ↔ parents.AtOrBelow low high := by
  constructor
  · intro member
    have climb := acyclic.climb_lineage low
    generalize parents.lineage low = names at climb member
    induction climb with
    | root _ =>
      rw [List.mem_singleton.mp member]
      exact .refl
    | step hasParent _ ih =>
      rcases List.mem_cons.mp member with same | higher
      · rw [same]
        exact .refl
      · exact .head hasParent (ih higher)
  · intro below
    induction below using ReflTransGen.head_induction_on with
    | refl => exact acyclic.mem_lineage_self high
    | head hasParent _ ih =>
      rw [acyclic.lineage_of_parent hasParent]
      exact List.mem_cons_of_mem _ ih

end Parents

/-- A choice among candidates: the first one that is not below, if there is one. -/
inductive Candidate.FirstOutside (below : String → Prop) : List Candidate → Option String → Prop
  | none : FirstOutside below [] none
  | here {candidate : Candidate} {rest : List Candidate} (outside : ¬below candidate.parent) :
      FirstOutside below (candidate :: rest) (some candidate.parent)
  | later {candidate : Candidate} {rest : List Candidate} {parent? : Option String}
      (inside : below candidate.parent) (further : FirstOutside below rest parent?) :
      FirstOutside below (candidate :: rest) parent?

namespace Candidate.FirstOutside

variable {below : String → Prop} {candidates : List Candidate} {parent? : Option String}

theorem congr {other : String → Prop} (first : FirstOutside below candidates parent?)
    (same : ∀ candidate ∈ candidates, below candidate.parent ↔ other candidate.parent) :
    FirstOutside other candidates parent? := by
  induction first with
  | none => exact .none
  | here outside => exact .here fun inside => outside ((same _ List.mem_cons_self).mpr inside)
  | later inside _ ih =>
    exact .later ((same _ List.mem_cons_self).mp inside)
      (ih fun candidate member => same candidate (List.mem_cons_of_mem _ member))

theorem eq_none_iff (first : FirstOutside below candidates parent?) :
    parent? = Option.none ↔ ∀ candidate ∈ candidates, below candidate.parent := by
  induction first with
  | none => simp
  | here outside => simp [outside]
  | later inside _ ih => simp [inside, ih]

end Candidate.FirstOutside

namespace ParentChoice

open Parents

variable {candidates : Candidates} {parents later : Parents} {operations : List Operation}

/-- A choice that stays is the right one later: what it passed over is below the operation then as
well, and what it took is not. -/
theorem firstOutside_choose (acyclic : parents.Acyclic) (laterAcyclic : later.Acyclic)
    (keeps : parents.Keeps later) {operation : String} {ranked : List Candidate}
    (stays : later.get? operation = (choose parents operation ranked).parent?) :
    Candidate.FirstOutside (later.AtOrBelow · operation) ranked (later.get? operation) := by
  rw [stays]
  induction ranked with
  | nil => exact .none
  | cons candidate rest ih =>
    cases closes : closesCycle parents operation candidate with
    | true =>
      have skips : (choose parents operation (candidate :: rest)).parent? =
          (choose parents operation rest).parent? := by
        simp [choose, closes]
      rw [skips] at stays ⊢
      have inside : operation ∈ parents.lineage candidate.parent := by
        simpa [closesCycle] using closes
      exact .later ((acyclic.mem_lineage_iff.mp inside).mono keeps) (ih stays)
    | false =>
      have takes : (choose parents operation (candidate :: rest)).parent? =
          some candidate.parent := by
        simp [choose, closes]
      rw [takes] at stays ⊢
      refine .here fun inside => laterAcyclic.not_mem_lineage_parent stays ?_
      exact laterAcyclic.mem_lineage_iff.mpr inside

theorem get?_chooseAll_of_not_mem {name : String} (absent : name ∉ operations.map (·.name)) :
    (chooseAll candidates parents operations).2.get? name = parents.get? name := by
  induction operations generalizing parents with
  | nil => rfl
  | cons operation rest ih =>
    rw [List.map_cons, List.mem_cons, not_or] at absent
    refine (ih absent.2).trans ?_
    rw [get?_record]
    simp [choose, absent.1]

theorem keeps_chooseAll (fresh : ∀ operation ∈ operations, parents.get? operation.name = none) :
    parents.Keeps (chooseAll candidates parents operations).2 := by
  intro child parent hasParent
  rw [get?_chooseAll_of_not_mem, hasParent]
  intro member
  obtain ⟨operation, isOperation, same⟩ := List.mem_map.mp member
  have none_ := fresh operation isOperation
  rw [same, hasParent] at none_
  cases none_

/-- Operations without a parent choose right, each once. -/
theorem firstOutside_chooseAll (candidates : Candidates) (acyclic : parents.Acyclic)
    (distinct : (operations.map (·.name)).Nodup)
    (fresh : ∀ operation ∈ operations, parents.get? operation.name = none) :
    ∀ operation ∈ operations, Candidate.FirstOutside
      ((chooseAll candidates parents operations).2.AtOrBelow · operation.name)
      ((candidates.get? operation.name).getD [])
      ((chooseAll candidates parents operations).2.get? operation.name) := by
  induction operations generalizing parents with
  | nil =>
    intro _ impossible
    cases impossible
  | cons operation rest ih =>
    obtain ⟨notAgain, restDistinct⟩ := List.nodup_cons.mp distinct
    have recorded (name : String) := get?_record parents
      (choose parents operation.name ((candidates.get? operation.name).getD [])) name
    have freshRest : ∀ other ∈ rest, (record parents (choose parents operation.name
        ((candidates.get? operation.name).getD []))).get? other.name = none := by
      intro other member
      have differ : other.name ≠ operation.name := by
        intro same
        exact notAgain (List.mem_map.mpr ⟨other, member, same⟩)
      rw [recorded, fresh other (List.mem_cons_of_mem _ member)]
      simp [choose, differ]
    intro other member
    rcases List.mem_cons.mp member with rfl | isLater
    · -- Nobody after it has its name, so its choice stays.
      refine firstOutside_choose acyclic (acyclic_chooseAll candidates acyclic _)
        (keeps_chooseAll fresh) ?_
      refine (get?_chooseAll_of_not_mem notAgain).trans ?_
      rw [recorded, fresh other member]
      simp [choose]
    · exact ih (acyclic_record acyclic operation.name _) restDistinct freshRest other isLater

end ParentChoice

namespace Forest

variable {config : Config} {models : Table Model} {parents : Parents} {candidates : Candidates}
  {operations : List Operation} {forest : Forest}

/-- The tree of a node holds the operations at or below it. -/
theorem Grown.mem_walk_iff (grown : Grown config models parents operations forest)
    (acyclic : parents.Acyclic) (distinct : (operations.map (·.name)).Nodup) {node lower : Node}
    (isNode : node ∈ forest.walk) (isLower : lower ∈ forest.walk) :
    lower ∈ node.walk ↔ parents.AtOrBelow lower.operation.name node.operation.name := by
  rw [← acyclic.mem_lineage_iff]
  constructor
  · intro inTree
    obtain ⟨entry, isEntry, root, isRoot, inRoot⟩ := mem_walk.mp isNode
    have faithful : Node.Faithful parents operations node := fun other member =>
      grown.faithful isEntry isRoot other (Node.mem_walk_trans member inRoot)
    exact faithful.root_mem_lineage acyclic inTree
  · intro passes
    obtain ⟨entry, isEntry, root, isRoot, inRoot⟩ := mem_walk.mp isLower
    obtain ⟨above, below⟩ := Node.mem_walk_iff_below.mp inRoot
    rw [← grown.lineage_eq acyclic isEntry isRoot below] at passes
    obtain ⟨upper, member, sameName⟩ := List.mem_map.mp passes
    have inUpper : upper ∈ forest.walk ∧ lower ∈ upper.walk := by
      rcases List.mem_cons.mp member with rfl | isAbove
      · exact ⟨isLower, Node.mem_walk.mpr (Or.inl rfl)⟩
      · obtain ⟨inTree, inUpper⟩ := below.mem_walk_of_above isAbove
        exact ⟨mem_walk.mpr ⟨entry, isEntry, root, isRoot, inTree⟩, inUpper⟩
    -- No name stands in the forest twice, so the node above with the right name is the one given.
    rw [← List.inj_on_of_nodup_map (grown.nodup_walk acyclic distinct) inUpper.1 isNode sameName]
    exact inUpper.2

/-- A finished forest shows who is at or below an operation that it holds. -/
theorem atOrBelow_iff (placed : ofParents config models parents operations = .ok forest)
    (acyclic : parents.Acyclic) (distinct : (operations.map (·.name)).Nodup)
    (known : ∀ child parent, parents.get? child = some parent →
      ∃ operation ∈ operations, operation.name = child)
    {node : Node} (isNode : node ∈ forest.walk) {name : String} :
    parents.AtOrBelow name node.operation.name ↔
      ∃ lower ∈ node.walk, lower.operation.name = name := by
  obtain ⟨built, complete⟩ := of_ofParents placed
  have grown := grown_of_build acyclic built
  constructor
  · intro below
    have isPlaced : ∃ lower ∈ forest.walk, lower.operation.name = name := by
      rcases below.cases_head with same | ⟨parent, hasParent, _⟩
      · exact ⟨node, isNode, same.symm⟩
      · obtain ⟨operation, isOperation, same⟩ := known name parent hasParent
        exact same ▸ complete operation isOperation
    obtain ⟨lower, isLower, rfl⟩ := isPlaced
    exact ⟨lower, (grown.mem_walk_iff acyclic distinct isNode isLower).mpr below, rfl⟩
  · rintro ⟨lower, inTree, rfl⟩
    obtain ⟨entry, isEntry, root, isRoot, inRoot⟩ := mem_walk.mp isNode
    have isLower : lower ∈ forest.walk :=
      mem_walk.mpr ⟨entry, isEntry, root, isRoot, Node.mem_walk_trans inTree inRoot⟩
    exact (grown.mem_walk_iff acyclic distinct isNode isLower).mp inTree

/-- The chosen parents, and the places in the forest that is assembled from them, are the first
candidates outside the trees of their own operations. An operation whose candidates are all inside
has no parent. -/
theorem assemble_first_outside (candidates : Candidates) (operations : List Operation)
    (distinct : (operations.map (·.name)).Nodup) :
    let parents := Parents.ofCandidates candidates operations
    (∀ operation ∈ operations,
      let ranked := (candidates.get? operation.name).getD []
      Candidate.FirstOutside (parents.AtOrBelow · operation.name) ranked
          (parents.get? operation.name) ∧
        (parents.get? operation.name = none ↔
          ∀ candidate ∈ ranked, parents.AtOrBelow candidate.parent operation.name)) ∧
    ∀ config models forest,
      (assemble config models candidates operations).outcome = .ok forest →
      (∀ operation ∈ operations, ∃ node ∈ forest.walk, node.operation = operation) ∧
      ∀ entry ∈ forest, ∀ root ∈ entry.2, ∀ above node, root.Below above node →
        let ranked := (candidates.get? node.operation.name).getD []
        let inTree name := ∃ lower ∈ node.walk, lower.operation.name = name
        Candidate.FirstOutside inTree ranked (above.head?.map (·.operation.name)) ∧
          (above = [] ↔ ∀ candidate ∈ ranked, inTree candidate.parent) := by
  intro parents
  have acyclic : parents.Acyclic := Parents.acyclic_ofCandidates candidates operations
  have first := ParentChoice.firstOutside_chooseAll candidates Parents.acyclic_empty distinct
    fun _ _ => Table.get?_empty _
  refine ⟨fun operation isOperation =>
    ⟨first operation isOperation, (first operation isOperation).eq_none_iff⟩, ?_⟩
  intro config models forest assembled
  have placed : ofParents config models parents operations = .ok forest := assembled
  obtain ⟨built, complete⟩ := of_ofParents placed
  have grown := grown_of_build acyclic built
  constructor
  · intro operation isOperation
    obtain ⟨node, inForest, same⟩ := complete operation isOperation
    exact ⟨node, inForest,
      List.inj_on_of_nodup_map distinct (grown.operation_mem inForest) isOperation same⟩
  · intro entry isEntry root isRoot above node below
    have inForest := mem_walk_of_below isEntry isRoot below
    have outside : Candidate.FirstOutside
        (fun name => ∃ lower ∈ node.walk, lower.operation.name = name)
        ((candidates.get? node.operation.name).getD [])
        (above.head?.map (·.operation.name)) := by
      rw [← grown.get?_of_below isEntry isRoot below]
      refine (first node.operation (grown.operation_mem inForest)).congr fun candidate _ =>
        atOrBelow_iff placed acyclic distinct ?_ inForest
      intro child parent hasParent
      obtain ⟨operation, isOperation, same, _⟩ := Parents.get?_ofCandidates hasParent
      exact ⟨operation, isOperation, same⟩
    refine ⟨outside, ?_⟩
    rw [← outside.eq_none_iff, Option.map_eq_none_iff, List.head?_eq_none_iff]

private def mutualOperation (name : String) (index : Nat) : Operation :=
  ⟨name, .query, [], name, "Shelf", false, false, some "Shelf", none, index⟩

private def mutualCandidates : Candidates :=
  let both := [⟨"shelf", [], 0⟩, ⟨"book", [], 1⟩]
  Table.ofList [("shelf", both), ("book", both)]

/-- Of two operations that each name themselves and the other one as parents, the first to choose
gets the other one, which is left without a parent. -/
theorem assemble_first_outside_mutual :
    let operations := [mutualOperation "shelf" 0, mutualOperation "book" 1]
    let parents := Parents.ofCandidates mutualCandidates operations
    (operations.map (·.name)).Nodup ∧
    Candidate.FirstOutside (parents.AtOrBelow · "shelf") [⟨"shelf", [], 0⟩, ⟨"book", [], 1⟩]
      (some "book") ∧
    (∀ candidate ∈ [⟨"shelf", [], 0⟩, ⟨"book", [], 1⟩],
      parents.AtOrBelow (Candidate.parent candidate) "book") := by
  intro operations parents
  have distinct : (operations.map (·.name)).Nodup := by decide
  have chosen := (assemble_first_outside mutualCandidates operations distinct).1
  have below : parents.get? "shelf" = some "book" := by decide
  have root : parents.get? "book" = none := by decide
  refine ⟨distinct, ?_, ?_⟩
  · exact below ▸ (chosen (mutualOperation "shelf" 0) (by simp [operations])).1
  · exact (chosen (mutualOperation "book" 1) (by simp [operations])).2.mp root

end Forest

end ChainedSdk
