import ChainedSdk.Proofs.Extensions
import ChainedSdk.Proofs.Matching
import ChainedSdk.Proofs.Readings
import Mathlib
/-!
# Best parents

Where names have to be extended, every operation is given its best candidate: the one whose result
satisfies most of its required identifying variables, and of several such the one declared first.
The order of the operations decides only between candidates that satisfy as many.
-/

namespace ChainedSdk

namespace Candidate

variable {config : Config} {models : Table Model} {operations others : List Operation}
  {child parent other : Operation}

/-- The number of required identifying variables of an operation that the result of another one
satisfies. -/
def satisfied (config : Config) (models : Table Model) (child parent : Operation) : Nat :=
  match parentModel? models parent with
  | none => 0
  | some model => (child.required.filter (·.isIdentifying)).countP fun input =>
    (model.supply? config 0 input).isSome

/-- A candidate whose result satisfies no fewer variables than that of any other one, and that is
declared before those that satisfy as many. -/
structure Best (config : Config) (models : Table Model) (operations : List Operation)
    (child parent : Operation) : Prop where
  member : parent ∈ operations
  supplies : suppliedUnder config models child parent ≠ []
  most : ∀ other ∈ operations, suppliedUnder config models child other ≠ [] →
    satisfied config models child other ≤ satisfied config models child parent
  first : ∀ other ∈ operations, suppliedUnder config models child other ≠ [] →
    satisfied config models child other = satisfied config models child parent →
      operations.idxOf parent ≤ operations.idxOf other

/-- What an operation chooses: its best candidate, or nothing where it has no candidate. -/
inductive Choice (config : Config) (models : Table Model) (operations : List Operation)
    (child : Operation) : Option String → Prop
  | noCandidate (lacking : ∀ other ∈ operations, suppliedUnder config models child other = []) :
      Choice config models operations child none
  | candidate {parent : Operation} (best : Best config models operations child parent) :
      Choice config models operations child (some parent.name)

/-- Two candidates of an operation whose results satisfy as many of its variables. -/
structure Tied (config : Config) (models : Table Model) (operations : List Operation)
    (child first second : Operation) : Prop where
  isFirst : first ∈ operations
  isSecond : second ∈ operations
  firstSupplies : suppliedUnder config models child first ≠ []
  secondSupplies : suppliedUnder config models child second ≠ []
  satisfied_eq : satisfied config models child first = satisfied config models child second

theorem length_suppliedUnder (supplies : suppliedUnder config models child parent ≠ []) :
    (suppliedUnder config models child parent).length = satisfied config models child parent := by
  obtain ⟨model, isModel, single, supplied⟩ := suppliedBy?_of_suppliedUnder supplies
  have isParent : parentModel? models parent = some model := by
    rw [parentModel?, single]
    exact isModel
  rw [(suppliedBy?_eq_some supplied).1, List.length_filterMap_eq_countP, satisfied, isParent]

theorem isExtension_of_suppliedUnder (extending : config.requireNamePrefix = true)
    (supplies : suppliedUnder config models child parent ≠ []) :
    Names.isExtension child.name parent.name := by
  by_contra shorter
  refine supplies ?_
  unfold suppliedUnder
  split
  · rfl
  · split
    · rfl
    · rw [if_pos (by simp [extending, shorter])]

theorem satisfied_unplaced (config : Config) (models : Table Model) (child parent : Operation) :
    satisfied config models child.unplaced parent.unplaced =
      satisfied config models child parent := rfl

theorem extended_ofOperations (extending : config.requireNamePrefix = true)
    (models : Table Model) (operations : List Operation) :
    ParentChoice.Extended (ofOperations config models operations) := by
  intro name candidate member
  obtain ⟨child, _, rfl, isRanked⟩ := exists_child member
  obtain ⟨parent, _, supplies, rfl⟩ := mem_ranked.mp isRanked
  exact isExtension_of_suppliedUnder extending supplies

theorem ranked_sorted (config : Config) (models : Table Model) (operations : List Operation)
    (child : Operation) :
    (ranked config models operations child).Pairwise fun first second =>
      ranksBefore first second := by
  apply List.pairwise_mergeSort
  · intro first second third upper lower
    simp only [ranksBefore, Bool.or_eq_true, Bool.and_eq_true, decide_eq_true_eq] at upper lower ⊢
    omega
  · intro first second
    simp only [ranksBefore, Bool.or_eq_true, Bool.and_eq_true, decide_eq_true_eq]
    omega

theorem idxOf_eq_index (numbered : operations.map (·.index) = List.range operations.length)
    (distinct : (operations.map (·.name)).Nodup) {operation : Operation}
    (member : operation ∈ operations) : operations.idxOf operation = operation.index := by
  obtain ⟨place, within, rfl⟩ := List.getElem_of_mem member
  have counted : (operations.map (·.index))[place]? = (List.range operations.length)[place]? := by
    rw [numbered]
  rw [List.getElem?_map, List.getElem?_eq_getElem within, List.getElem?_range within] at counted
  rw [distinct.of_map.idxOf_getElem place within]
  exact (Option.some.inj counted).symm

theorem best_of_head? (numbered : operations.map (·.index) = List.range operations.length)
    (distinct : (operations.map (·.name)).Nodup) {candidate : Candidate}
    (isFirst : (ranked config models operations child).head? = some candidate) :
    ∃ parent, Best config models operations child parent ∧ parent.name = candidate.parent := by
  obtain ⟨parent, isParent, supplies, rfl⟩ := mem_ranked.mp (List.mem_of_head? isFirst)
  have ahead : ∀ other ∈ operations, suppliedUnder config models child other ≠ [] →
      satisfied config models child other < satisfied config models child parent ∨
        (satisfied config models child parent = satisfied config models child other ∧
          operations.idxOf parent ≤ operations.idxOf other) := by
    intro other isOther otherSupplies
    have isRanked := mem_ranked.mpr ⟨other, isOther, otherSupplies, rfl⟩
    have sorted := ranked_sorted config models operations child
    obtain ⟨rest, whole⟩ := List.head?_eq_some_iff.mp isFirst
    rw [whole] at sorted isRanked
    rw [idxOf_eq_index numbered distinct isParent, idxOf_eq_index numbered distinct isOther,
      ← length_suppliedUnder supplies, ← length_suppliedUnder otherSupplies]
    rcases List.mem_cons.mp isRanked with same | later
    · rw [Candidate.mk.injEq] at same
      rw [same.2.1, same.2.2]
      exact Or.inr ⟨rfl, Nat.le_refl _⟩
    · simpa [ranksBefore] using (List.pairwise_cons.mp sorted).1 _ later
  refine ⟨parent, ⟨isParent, supplies, ?_, ?_⟩, rfl⟩
  · intro other isOther otherSupplies
    have order := ahead other isOther otherSupplies
    omega
  · intro other isOther otherSupplies tied
    have order := ahead other isOther otherSupplies
    omega

theorem choice_first? (numbered : operations.map (·.index) = List.range operations.length)
    (distinct : (operations.map (·.name)).Nodup) (isChild : child ∈ operations) :
    Choice config models operations child
      (ParentChoice.first? (ofOperations config models operations) child.name) := by
  rw [ParentChoice.first?, get?_ofOperations distinct isChild, Option.getD_some]
  cases isFirst : (ranked config models operations child).head? with
  | none =>
    refine .noCandidate fun other isOther => ?_
    by_contra supplies
    have isRanked := mem_ranked.mpr ⟨other, isOther, supplies, rfl⟩
    rw [List.head?_eq_none_iff.mp isFirst] at isRanked
    cases isRanked
  | some candidate =>
    obtain ⟨parent, best, sameName⟩ := best_of_head? numbered distinct isFirst
    rw [Option.map_some, ← sameName]
    exact .candidate best

/-- In another order of the operations a candidate supplies what it did. -/
theorem exists_moved (config : Config) (models : Table Model)
    (same : (others.map (·.unplaced)).Perm (operations.map (·.unplaced)))
    {otherChild : Operation} (sameChild : otherChild.unplaced = child.unplaced)
    (isOther : other ∈ others) : ∃ operation ∈ operations, operation.name = other.name ∧
      suppliedUnder config models child operation = suppliedUnder config models otherChild other ∧
      satisfied config models child operation = satisfied config models otherChild other := by
  obtain ⟨operation, isOperation, isSame⟩ :=
    List.mem_map.mp (same.subset (List.mem_map_of_mem (f := (·.unplaced)) isOther))
  refine ⟨operation, isOperation, Operation.name_of_unplaced isSame, ?_, ?_⟩
  · rw [← suppliedUnder_unplaced, ← sameChild, isSame, suppliedUnder_unplaced]
  · rw [← satisfied_unplaced, ← sameChild, isSame, satisfied_unplaced]

/-- What an operation chooses from the same operations in two orders satisfies as many of its
variables. -/
theorem Choice.tied (same : (others.map (·.unplaced)).Perm (operations.map (·.unplaced)))
    {otherChild : Operation} (sameChild : otherChild.unplaced = child.unplaced)
    {name? otherName? : Option String} (choice : Choice config models operations child name?)
    (otherChoice : Choice config models others otherChild otherName?) :
    (name? = none ∧ otherName? = none) ∨ ∃ first second, name? = some first.name ∧
      otherName? = some second.name ∧ Tied config models operations child first second := by
  cases choice with
  | noCandidate lacking =>
    cases otherChoice with
    | noCandidate _ => exact Or.inl ⟨rfl, rfl⟩
    | candidate otherBest =>
      obtain ⟨operation, isOperation, _, supplies, _⟩ :=
        exists_moved config models same sameChild otherBest.member
      exact absurd (supplies.symm.trans (lacking operation isOperation)) otherBest.supplies
  | @candidate parent best =>
    obtain ⟨moved, isMoved, _, movedSupplies, movedCount⟩ :=
      exists_moved config models same.symm sameChild.symm best.member
    have suppliesMoved : suppliedUnder config models otherChild moved ≠ [] :=
      movedSupplies ▸ best.supplies
    cases otherChoice with
    | noCandidate lacking => exact absurd (lacking moved isMoved) suppliesMoved
    | @candidate otherParent otherBest =>
      obtain ⟨second, isSecond, sameName, supplies, count⟩ :=
        exists_moved config models same sameChild otherBest.member
      have secondSupplies : suppliedUnder config models child second ≠ [] :=
        supplies ▸ otherBest.supplies
      have atMost := otherBest.most moved isMoved suppliesMoved
      have atLeast := best.most second isSecond secondSupplies
      refine Or.inr ⟨parent, second, rfl, congrArg some sameName.symm, ?_⟩
      exact ⟨best.member, isSecond, best.supplies, secondSupplies, by omega⟩

end Candidate

section Extending

variable {config : Config} {operations : List Operation}

theorem Parents.extending_ofOperations (extending : config.requireNamePrefix = true)
    (models : Table Model) (operations : List Operation) :
    (ofOperations config models operations).Extending :=
  (ParentChoice.chooseAll_of_extended
    (Candidate.extended_ofOperations extending models operations) extending_empty operations).1

theorem Parents.choice_ofOperations (extending : config.requireNamePrefix = true)
    (models : Table Model)
    (numbered : operations.map (·.index) = List.range operations.length)
    (distinct : (operations.map (·.name)).Nodup) {child : Operation} (isChild : child ∈ operations) :
    Candidate.Choice config models operations child
      ((ofOperations config models operations).get? child.name) := by
  obtain ⟨_, _, found⟩ := ParentChoice.chooseAll_of_extended
    (Candidate.extended_ofOperations extending models operations) extending_empty operations
  have chosen := found child.name
  rw [if_pos (List.mem_map_of_mem isChild), Table.get?_empty, Option.or_none] at chosen
  rw [ofOperations, ofCandidates, chosen]
  exact Candidate.choice_first? numbered distinct isChild

end Extending

namespace Forest

variable {context : Context} {config : Config} {models table : Table Model}
  {documents : List DocumentFile} {operations : List Operation} {forest : Forest}

theorem Grown.isExtension {parents : Parents}
    (grown : Grown config models parents operations forest) (extending : parents.Extending)
    {entry : OperationKind × List Node} (isEntry : entry ∈ forest) {root node : Node}
    (isRoot : root ∈ entry.2) {above : List Node} (below : root.Below above node) {upper : Node}
    (isAbove : upper ∈ above) :
    Names.isExtension node.operation.name upper.operation.name := by
  have acyclic := extending.acyclic
  have whole := grown.lineage_eq acyclic isEntry isRoot below
  have distinct := (acyclic.climb_lineage node.operation.name).nodup acyclic
  rw [← whole] at distinct
  have isName : upper.operation.name ∈ above.map (·.operation.name) := List.mem_map_of_mem isAbove
  have passed : upper.operation.name ∈ parents.lineage node.operation.name := by
    rw [← whole]
    exact List.mem_cons_of_mem _ isName
  rcases extending.of_mem_lineage passed with same | longer
  · rw [same] at isName
    exact absurd isName (List.nodup_cons.mp distinct).1
  · exact longer

/-- A forest that holds every operation once, right below its best candidate or, without
candidates, at a root, and with shorter names above it. -/
structure PlacesBest (config : Config) (models : Table Model) (operations : List Operation)
    (forest : Forest) : Prop where
  once : (forest.walk.map (·.operation)).Perm operations
  best : ∀ entry ∈ forest, ∀ root ∈ entry.2, ∀ above node, root.Below above node →
    Candidate.Choice config models operations node.operation
      (above.head?.map (·.operation.name))
  extending : ∀ entry ∈ forest, ∀ root ∈ entry.2, ∀ above node, root.Below above node →
    ∀ upper ∈ above, Names.isExtension node.operation.name upper.operation.name

/-- Where names have to be extended, no candidate is passed over. Every operation is attached to its
best candidate, and without candidates it is a root; names grow on every way down; and to declare
the operations in another order only exchanges candidates that satisfy as many variables. -/
theorem assemble_best_parents (models : Table Model)
    (extending : config.requireNamePrefix = true)
    (collected : (collectOperations context table documents).outcome = .ok operations) :
    (∀ choice ∈ (ParentChoice.chooseAll (Candidate.ofOperations config models operations) ∅
        operations).1, choice.skipped = []) ∧
    (∀ child ∈ operations, Candidate.Choice config models operations child
      ((Parents.ofOperations config models operations).get? child.name)) ∧
    (∀ forest, (assemble config models (Candidate.ofOperations config models operations)
      operations).outcome = .ok forest → forest.PlacesBest config models operations) ∧
    ∀ otherContext otherTable otherDocuments others,
      (collectOperations otherContext otherTable otherDocuments).outcome = .ok others →
      (others.map (·.unplaced)).Perm (operations.map (·.unplaced)) → ∀ child ∈ operations,
        let chosen := (Parents.ofOperations config models operations).get? child.name
        let otherChosen := (Parents.ofOperations config models others).get? child.name
        (chosen = none ∧ otherChosen = none) ∨ ∃ first second, chosen = some first.name ∧
          otherChosen = some second.name ∧
          Candidate.Tied config models operations child first second := by
  obtain ⟨_, distinct⟩ := collectOperations_eq_ok collected
  have numbered := numbered_of_collectOperations collected
  have longer := Parents.extending_ofOperations extending models operations
  have chooses {child : Operation} (isChild : child ∈ operations) :=
    Parents.choice_ofOperations extending models numbered distinct isChild
  refine ⟨?_, fun child isChild => chooses isChild, ?_, ?_⟩
  · exact (ParentChoice.chooseAll_of_extended
      (Candidate.extended_ofOperations extending models operations)
        Parents.extending_empty operations).2.1
  · intro forest assembled
    obtain ⟨grown, arranges⟩ := grown_of_assemble distinct assembled
    refine ⟨arranges.once, ?_, ?_⟩
    · intro entry isEntry root isRoot above node below
      rw [← grown.get?_of_below isEntry isRoot below]
      exact chooses (grown.operation_mem (mem_walk_of_below isEntry isRoot below))
    · intro entry isEntry root isRoot above node below upper isAbove
      exact grown.isExtension longer isEntry isRoot below isAbove
  · intro _ _ _ others otherCollected same child isChild
    obtain ⟨_, otherDistinct⟩ := collectOperations_eq_ok otherCollected
    obtain ⟨otherChild, isOther, sameChild⟩ :=
      List.mem_map.mp (same.symm.subset (List.mem_map_of_mem (f := (·.unplaced)) isChild))
    have otherChoice := Parents.choice_ofOperations extending models
      (numbered_of_collectOperations otherCollected) otherDistinct isOther
    rw [Operation.name_of_unplaced sameChild] at otherChoice
    exact (chooses isChild).tied same sameChild otherChoice

private def idType : TypeDescriptor := ⟨"ID", .scalar, [], some "string", [], [], [], none⟩

private def noteContext : Context :=
  ⟨Table.ofList [("ID", idType)], ∅, [], {}⟩

private def noteRoot (name : String) : String × Model :=
  (name, ⟨name, "Query", [⟨"note", "note", idType, false, false, some "Note"⟩], "note",
    .operation .query, []⟩)

private def noteModels : Table Model := Table.ofList
  [("Note", ⟨"Note", "Note", [⟨"id", "id", idType, false, false, none⟩], "note", .fragment, []⟩),
    noteRoot "NQuery", noteRoot "NAQuery", noteRoot "NABQuery"]

private def noteFiles : List DocumentFile :=
  [⟨⟨["nA_b", "n", "nA"].map fun name => .operation ⟨none, .query, some name,
    [⟨none, "id", .nonNull (.named "ID"), none, []⟩], [], []⟩⟩, none⟩]

/-- Two operations supply the variable of a third one, whose name extends both of theirs: it is
called under the one declared first. -/
theorem assemble_best_parents_notes : ∃ operations,
    (collectOperations noteContext noteModels noteFiles).outcome = .ok operations ∧
    (Parents.ofOperations {} noteModels operations).get? "nA_b" = some "n" ∧
    ∀ child ∈ operations, Candidate.Choice {} noteModels operations child
      ((Parents.ofOperations {} noteModels operations).get? child.name) := by
  have whole : (do
      let operations ← (collectOperations noteContext noteModels noteFiles).outcome
      return (Parents.ofOperations {} noteModels operations).get? "nA_b" :
        Except Error (Option String)) = .ok (some "n") := by
    cbv
  obtain ⟨operations, collected, whole⟩ := Outcome.bind_eq_ok_iff.mp whole
  exact ⟨operations, collected, Except.ok.inj whole,
    (assemble_best_parents noteModels rfl collected).2.1⟩

end Forest

end ChainedSdk
