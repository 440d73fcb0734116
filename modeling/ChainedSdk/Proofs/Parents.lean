import ChainedSdk.Chain.Parents
import Mathlib.Data.List.Basic
/-!
# Chosen parents are acyclic

The way up from an operation, as a derivation that ends at a root, and the invariant of the choosing
loop: the parents chosen so far are acyclic, so every way up ends and `lineage` finds all of it.
-/

namespace ChainedSdk

namespace Parents

/-- The way up from a start meets exactly some names, and the last of them is a root. -/
inductive Climb (parents : Parents) : String → List String → Prop
  | root {start : String} : parents.get? start = none → Climb parents start [start]
  | step {start parent : String} {above : List String} :
      parents.get? start = some parent → Climb parents parent above →
      Climb parents start (start :: above)

variable {parents : Parents}

theorem Climb.unique {start : String} {first second : List String}
    (one : parents.Climb start first) (other : parents.Climb start second) : first = second := by
  induction one generalizing second with
  | root atRoot =>
    cases other with
    | root _ => rfl
    | step hasParent _ =>
      rw [atRoot] at hasParent
      cases hasParent
  | step hasParent _ ih =>
    cases other with
    | root atRoot =>
      rw [atRoot] at hasParent
      cases hasParent
    | step otherParent climb =>
      rw [hasParent] at otherParent
      cases otherParent
      rw [ih climb]

theorem Climb.mem_start {start : String} {names : List String}
    (climb : parents.Climb start names) : start ∈ names := by
  cases climb with
  | root _ => exact List.mem_singleton_self start
  | step _ _ => exact List.mem_cons_self

theorem Climb.rank_le {start : String} {names : List String} (climb : parents.Climb start names)
    {rank : String → Nat}
    (grows : ∀ child parent, parents.get? child = some parent → rank parent < rank child) :
    ∀ name ∈ names, rank name ≤ rank start := by
  induction climb with
  | root _ => simp
  | @step start parent above hasParent _ ih =>
    intro name member
    rcases List.mem_cons.mp member with same | higher
    · exact Nat.le_of_eq (congrArg rank same)
    · exact Nat.le_of_lt (Nat.lt_of_le_of_lt (ih name higher) (grows start parent hasParent))

theorem Climb.nodup {start : String} {names : List String} (climb : parents.Climb start names)
    (acyclic : parents.Acyclic) : names.Nodup := by
  obtain ⟨rank, grows⟩ := acyclic
  induction climb with
  | root _ => simp
  | @step start parent above hasParent rest ih =>
    refine List.nodup_cons.mpr ⟨fun again => ?_, ih⟩
    have lower := rest.rank_le grows start again
    have upper := grows start parent hasParent
    omega

theorem Climb.dropLast_subset {start : String} {names : List String}
    (climb : parents.Climb start names) : names.dropLast ⊆ parents.keys := by
  induction climb with
  | root _ => simp
  | @step start parent above hasParent rest ih =>
    have nonempty : above ≠ [] := List.ne_nil_of_mem rest.mem_start
    rw [List.dropLast_cons_of_ne_nil nonempty]
    intro name member
    rcases List.mem_cons.mp member with same | higher
    · subst same
      exact (parents.contains_iff_mem_keys name).mp (by simp [Table.contains, hasParent])
    · exact ih higher

/-- A way up that meets nothing twice has at most one step for every parent. -/
theorem Climb.length_le {start : String} {names : List String} (climb : parents.Climb start names)
    (acyclic : parents.Acyclic) : names.length ≤ parents.size + 1 := by
  have distinct : names.dropLast.Nodup := (climb.nodup acyclic).sublist (List.dropLast_sublist _)
  have bounded := distinct.length_le_of_subset climb.dropLast_subset
  rw [List.length_dropLast, Table.keys, List.length_map] at bounded
  change names.length - 1 ≤ parents.size at bounded
  omega

theorem Climb.upward_eq {start : String} {names : List String} (climb : parents.Climb start names)
    {steps : Nat} (enough : names.length ≤ steps + 1) : parents.upward steps start = names := by
  induction climb generalizing steps with
  | root atRoot =>
    cases steps with
    | zero => rfl
    | succ steps => simp only [upward, atRoot]
  | @step start parent above hasParent rest ih =>
    have positive : 0 < above.length := List.length_pos_of_mem rest.mem_start
    rw [List.length_cons] at enough
    cases steps with
    | zero => omega
    | succ steps =>
      simp only [upward, hasParent]
      rw [ih (by omega)]

theorem Acyclic.exists_climb (acyclic : parents.Acyclic) (start : String) :
    ∃ names, parents.Climb start names := by
  obtain ⟨rank, grows⟩ := acyclic
  induction height : rank start using Nat.strongRecOn generalizing start with
  | ind _ ih =>
    cases found : parents.get? start with
    | none => exact ⟨[start], .root found⟩
    | some parent =>
      have lower := height ▸ grows start parent found
      obtain ⟨above, climb⟩ := ih (rank parent) lower parent rfl
      exact ⟨start :: above, .step found climb⟩

/-- Among acyclic parents the way up from every start ends, and the lineage is all of it. -/
theorem Acyclic.climb_lineage (acyclic : parents.Acyclic) (start : String) :
    parents.Climb start (parents.lineage start) := by
  obtain ⟨names, climb⟩ := acyclic.exists_climb start
  have same : parents.lineage start = names := climb.upward_eq (climb.length_le acyclic)
  rw [same]
  exact climb

theorem Acyclic.lineage_of_root (acyclic : parents.Acyclic) {start : String}
    (atRoot : parents.get? start = none) : parents.lineage start = [start] :=
  (acyclic.climb_lineage start).unique (.root atRoot)

theorem Acyclic.lineage_of_parent (acyclic : parents.Acyclic) {start parent : String}
    (hasParent : parents.get? start = some parent) :
    parents.lineage start = start :: parents.lineage parent :=
  (acyclic.climb_lineage start).unique (.step hasParent (acyclic.climb_lineage parent))

theorem Acyclic.mem_lineage_self (acyclic : parents.Acyclic) (start : String) :
    start ∈ parents.lineage start :=
  (acyclic.climb_lineage start).mem_start

theorem Acyclic.not_mem_lineage_parent (acyclic : parents.Acyclic) {child parent : String}
    (hasParent : parents.get? child = some parent) : child ∉ parents.lineage parent := by
  have distinct := (acyclic.climb_lineage child).nodup acyclic
  rw [acyclic.lineage_of_parent hasParent] at distinct
  exact (List.nodup_cons.mp distinct).1

theorem Acyclic.mem_lineage_trans (acyclic : parents.Acyclic) {low middle high : String}
    (upper : high ∈ parents.lineage middle) (lower : middle ∈ parents.lineage low) :
    high ∈ parents.lineage low := by
  have climb := acyclic.climb_lineage low
  generalize parents.lineage low = names at climb lower ⊢
  induction climb with
  | root atRoot =>
    rw [List.mem_singleton.mp lower, acyclic.lineage_of_root atRoot] at upper
    exact upper
  | @step start parent above hasParent rest ih =>
    rcases List.mem_cons.mp lower with same | higher
    · rw [same, acyclic.lineage_of_parent hasParent,
        (acyclic.climb_lineage parent).unique rest] at upper
      exact upper
    · exact List.mem_cons_of_mem _ (ih higher)

/-- Of two operations above a third one, one stands above the other. -/
theorem Acyclic.lineage_total (acyclic : parents.Acyclic) {low first second : String}
    (one : first ∈ parents.lineage low) (other : second ∈ parents.lineage low) :
    first ∈ parents.lineage second ∨ second ∈ parents.lineage first := by
  have climb := acyclic.climb_lineage low
  generalize parents.lineage low = names at climb one other
  induction climb with
  | @root start _ =>
    rw [List.mem_singleton.mp one, List.mem_singleton.mp other]
    exact Or.inl (acyclic.mem_lineage_self start)
  | @step start parent above hasParent rest ih =>
    have whole : parents.lineage start = start :: above := by
      rw [acyclic.lineage_of_parent hasParent, (acyclic.climb_lineage parent).unique rest]
    rcases List.mem_cons.mp one with firstLow | firstHigher
    · right
      rw [firstLow, whole]
      exact other
    · rcases List.mem_cons.mp other with secondLow | secondHigher
      · left
        rw [secondLow, whole]
        exact one
      · exact ih firstHigher secondHigher

/-- Two operations with the same parent, or both without one, stand above a third one only when they
are the same. -/
theorem Acyclic.eq_of_siblings (acyclic : parents.Acyclic) {low first second : String}
    (siblings : parents.get? first = parents.get? second)
    (one : first ∈ parents.lineage low) (other : second ∈ parents.lineage low) :
    first = second := by
  have above {upper lower : String} (same : parents.get? upper = parents.get? lower)
      (member : upper ∈ parents.lineage lower) : upper = lower := by
    cases found : parents.get? lower with
    | none =>
      rw [acyclic.lineage_of_root found] at member
      exact List.mem_singleton.mp member
    | some parent =>
      rw [acyclic.lineage_of_parent found] at member
      rcases List.mem_cons.mp member with equal | higher
      · exact equal
      · exact absurd higher (acyclic.not_mem_lineage_parent (same.trans found))
  rcases acyclic.lineage_total one other with below | above'
  · exact above siblings below
  · exact (above siblings.symm above').symm

theorem acyclic_empty : Acyclic ∅ := ⟨fun _ => 0, fun _ _ impossible => by simp at impossible⟩

/-- A new parent that does not stand below its child leaves the parents acyclic: everything at or
below the child moves above the parent's rank. -/
theorem Acyclic.insert (acyclic : parents.Acyclic) {child parent : String}
    (above : child ∉ parents.lineage parent) : Acyclic (parents.insert child parent) := by
  have spec := acyclic
  obtain ⟨rank, grows⟩ := acyclic
  refine ⟨fun name =>
    rank name + if child ∈ parents.lineage name then rank parent + 1 else 0, ?_⟩
  intro lower upper edge
  beta_reduce
  rw [Table.get?_insert] at edge
  split at edge
  · next same =>
    cases edge
    rw [same, if_neg above, if_pos (spec.mem_lineage_self child)]
    omega
  · have earlier := grows lower upper edge
    by_cases passes : child ∈ parents.lineage upper
    · have lowerPasses : child ∈ parents.lineage lower := by
        rw [spec.lineage_of_parent edge]
        exact List.mem_cons_of_mem _ passes
      rw [if_pos passes, if_pos lowerPasses]
      omega
    · rw [if_neg passes]
      omega

end Parents

namespace ParentChoice

/-- The parent chosen is a candidate under which the operation does not stand below itself. -/
theorem of_choose_parent {parents : Parents} {operation parent : String}
    {candidates : List Candidate}
    (chosen : (choose parents operation candidates).parent? = some parent) :
    (∃ candidate ∈ candidates, candidate.parent = parent) ∧
      operation ∉ parents.lineage parent := by
  obtain ⟨candidate, first, same⟩ := Option.map_eq_some_iff.mp chosen
  have member : candidate ∈ candidates.dropWhile (closesCycle parents operation) :=
    List.mem_of_mem_head? first
  have opens : closesCycle parents operation candidate = false := by
    simpa [first] using List.head?_dropWhile_not (closesCycle parents operation) candidates
  refine ⟨⟨candidate, (List.dropWhile_suffix _).subset member, same⟩, ?_⟩
  rw [← same]
  simpa [closesCycle] using opens

theorem acyclic_record {parents : Parents} (acyclic : parents.Acyclic) (operation : String)
    (candidates : List Candidate) :
    (record parents (choose parents operation candidates)).Acyclic := by
  unfold record
  split
  · next parent chosen =>
    exact acyclic.insert (of_choose_parent chosen).2
  · exact acyclic

theorem acyclic_chooseAll (candidates : Candidates) {parents : Parents}
    (acyclic : parents.Acyclic) (operations : List Operation) :
    (chooseAll candidates parents operations).2.Acyclic := by
  induction operations generalizing parents with
  | nil => exact acyclic
  | cons operation rest ih => exact ih (acyclic_record acyclic operation.name _)

/-- Every parent on record after a loop was there before or was chosen from the candidates of one of
the operations. -/
theorem get?_chooseAll (candidates : Candidates) {parents : Parents} {operations : List Operation}
    {child parent : String}
    (found : (chooseAll candidates parents operations).2.get? child = some parent) :
    parents.get? child = some parent ∨ ∃ operation ∈ operations, operation.name = child ∧
      ∃ candidate ∈ (candidates.get? child).getD [], candidate.parent = parent := by
  induction operations generalizing parents with
  | nil => exact Or.inl found
  | cons operation rest ih =>
    rcases ih found with before | ⟨other, member, chosen⟩
    · unfold record at before
      split at before
      · next chosenParent chosen =>
        rw [Table.get?_insert] at before
        split at before
        · next same =>
          cases before
          right
          refine ⟨operation, List.mem_cons_self, same.symm, ?_⟩
          rw [same]
          exact (of_choose_parent chosen).1
        · exact Or.inl before
      · exact Or.inl before
    · exact Or.inr ⟨other, List.mem_cons_of_mem _ member, chosen⟩

end ParentChoice

namespace Parents

/-- The choosing loop keeps the parents acyclic, after whatever operations it has come. -/
theorem acyclic_ofCandidates (candidates : Candidates) (operations : List Operation) :
    (ofCandidates candidates operations).Acyclic :=
  ParentChoice.acyclic_chooseAll candidates acyclic_empty operations

theorem get?_ofCandidates {candidates : Candidates} {operations : List Operation}
    {child parent : String}
    (found : (ofCandidates candidates operations).get? child = some parent) :
    ∃ operation ∈ operations, operation.name = child ∧
      ∃ candidate ∈ (candidates.get? child).getD [], candidate.parent = parent := by
  rcases ParentChoice.get?_chooseAll candidates found with before | chosen
  · simp at before
  · exact chosen

end Parents

end ChainedSdk
