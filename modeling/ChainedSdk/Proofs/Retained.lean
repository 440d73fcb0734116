import ChainedSdk.Proofs.Resolution
import Mathlib.Data.List.Pairwise
/-!
# Parents among retained operations

Of some operations those of some kinds are retained, and each may have been declared elsewhere as
long as their order stays. Candidates are of one kind and ranked by their order, so the retained
operations choose the parents that they chose among all.
-/

namespace ChainedSdk

/-! ## Ranking -/

namespace Candidate

variable {config : Config} {models : Table Model} {operations : List Operation}
  {child parent : Operation}

def ofParent (config : Config) (models : Table Model) (child parent : Operation) : Candidate :=
  ⟨parent.name, suppliedUnder config models child parent, parent.index⟩

theorem kind_of_suppliedUnder (supplies : suppliedUnder config models child parent ≠ []) :
    parent.kind = child.kind := by
  by_contra differ
  refine supplies ?_
  rw [suppliedUnder, if_pos (by simp [differ])]

theorem ranked_eq (config : Config) (models : Table Model) (operations : List Operation)
    (child : Operation) : ranked config models operations child =
      ((operations.filter fun parent => suppliedUnder config models child parent ≠ []).map
        (ofParent config models child)).mergeSort ranksBefore := by
  unfold ranked
  dsimp only
  rw [← List.filterMap_eq_map, List.filterMap_filter]
  congr 2
  funext parent
  cases supplies : suppliedUnder config models child parent with
  | nil => simp
  | cons first rest => simp [supplies, ofParent]

end Candidate

/-- The operations of some kinds are retained from others, each read as it was, in their order and
with their results. -/
structure Retained (keeps : OperationKind → Bool) (move : Operation → Operation)
    (models others : Table Model) (operations kept : List Operation) : Prop where
  kept_eq : kept = (operations.filter fun operation => keeps operation.kind).map move
  unplaced_eq : ∀ operation, (move operation).unplaced = operation.unplaced
  distinct : (operations.map (·.name)).Nodup
  ordered : operations.Pairwise fun first second => first.index < second.index
  keptOrdered : kept.Pairwise fun first second => first.index < second.index
  results : ∀ operation ∈ operations, keeps operation.kind →
    operation.resultModel? others = operation.resultModel? models

namespace Operation

/-- An operation declared where the one of its name stands among some others. -/
def placedIn (others : List Operation) (operation : Operation) : Operation :=
  match others.find? fun other => other.name = operation.name with
  | some other => { operation with location? := other.location?, index := other.index }
  | none => operation

theorem unplaced_placedIn (others : List Operation) (operation : Operation) :
    (operation.placedIn others).unplaced = operation.unplaced := by
  unfold placedIn
  split <;> rfl

/-- Operations that are read alike are placed as the others are. -/
theorem map_placedIn {operations others : List Operation}
    (same : operations.map (·.unplaced) = others.map (·.unplaced))
    (distinct : (others.map (·.name)).Nodup) : operations.map (placedIn others) = others := by
  have sameLength : operations.length = others.length := by
    simpa using congrArg List.length same
  refine List.ext_getElem (by simpa using sameLength) fun index first second => ?_
  rw [List.length_map] at first
  have here : operations[index].unplaced = others[index].unplaced := by
    have atIndex : (operations.map (·.unplaced))[index]? = (others.map (·.unplaced))[index]? := by
      rw [same]
    simpa [first, second] using atIndex
  have found : others.find? (fun other => other.name = operations[index].name) =
      some others[index] := by
    refine List.find?_eq_some_iff_getElem.mpr ⟨?_, index, second, rfl, fun earlier before => ?_⟩
    · exact decide_eq_true (name_of_unplaced here).symm
    · have apart := List.pairwise_iff_getElem.mp (List.pairwise_map.mp distinct)
        earlier index (Nat.lt_trans before second) second before
      simpa [name_of_unplaced here] using apart
  rw [List.getElem_map, placedIn, found]
  exact eq_of_unplaced here rfl rfl

theorem placedIn_congr {α : Type} {field : Operation → α} {operations others : List Operation}
    (same : operations.map (·.unplaced) = others.map (·.unplaced))
    (distinct : (others.map (·.name)).Nodup)
    (sameFields : others.map field = operations.map field) :
    ∀ operation ∈ operations, field (operation.placedIn others) = field operation := by
  refine List.map_inj_left.mp ?_
  have placed := congrArg (List.map field) (map_placedIn same distinct)
  rw [List.map_map] at placed
  exact placed.trans sameFields

end Operation

theorem ordered_of_numbered {operations : List Operation}
    (numbered : operations.map (·.index) = List.range operations.length) :
    operations.Pairwise fun first second => first.index < second.index := by
  rw [← List.pairwise_map (f := Operation.index) (R := (· < ·)), numbered]
  exact List.pairwise_lt_range

/-- Operations of some kinds are retained where they are read alike among all operations. -/
theorem Retained.of_unplaced {keeps : OperationKind → Bool} {models others : Table Model}
    {operations kept : List Operation}
    (same : (operations.filter fun operation => keeps operation.kind).map (·.unplaced) =
      kept.map (·.unplaced))
    (distinct : (operations.map (·.name)).Nodup) (distinctKept : (kept.map (·.name)).Nodup)
    (numbered : operations.map (·.index) = List.range operations.length)
    (keptNumbered : kept.map (·.index) = List.range kept.length)
    (results : ∀ operation ∈ operations, keeps operation.kind →
      operation.resultModel? others = operation.resultModel? models) :
    Retained keeps (Operation.placedIn kept) models others operations kept where
  kept_eq := (Operation.map_placedIn same distinctKept).symm
  unplaced_eq := Operation.unplaced_placedIn kept
  distinct := distinct
  ordered := ordered_of_numbered numbered
  keptOrdered := ordered_of_numbered keptNumbered
  results := results

def IsKept (keeps : OperationKind → Bool) (operations : List Operation) (name : String) : Prop :=
  ∃ operation ∈ operations, keeps operation.kind = true ∧ operation.name = name

namespace Retained

variable {keeps : OperationKind → Bool} {move : Operation → Operation}
  {config : Config} {models others : Table Model} {operations kept : List Operation}
  {child parent : Operation}

theorem name_eq (retained : Retained keeps move models others operations kept)
    (operation : Operation) : (move operation).name = operation.name :=
  Operation.name_of_unplaced (retained.unplaced_eq operation)

theorem isKept_iff (retained : Retained keeps move models others operations kept)
    (member : parent ∈ operations) : IsKept keeps operations parent.name ↔ keeps parent.kind := by
  constructor
  · rintro ⟨other, isOther, keptOther, sameName⟩
    rwa [List.inj_on_of_nodup_map retained.distinct isOther member sameName] at keptOther
  · exact fun keptParent => ⟨parent, member, keptParent, rfl⟩

theorem suppliedUnder_move (retained : Retained keeps move models others operations kept)
    (isParent : parent ∈ operations) (keptParent : keeps parent.kind) :
    Candidate.suppliedUnder config others (move child) (move parent) =
      Candidate.suppliedUnder config models child parent := by
  rw [← Candidate.suppliedUnder_unplaced, retained.unplaced_eq, retained.unplaced_eq,
    Candidate.suppliedUnder_unplaced]
  have sameModel : Candidate.parentModel? others parent = Candidate.parentModel? models parent := by
    unfold Candidate.parentModel?
    rw [retained.results parent isParent keptParent]
  unfold Candidate.suppliedUnder
  rw [sameModel]

theorem ofParent_move (retained : Retained keeps move models others operations kept)
    (isParent : parent ∈ operations) (keptParent : keeps parent.kind) :
    Candidate.ofParent config others (move child) (move parent) =
      { Candidate.ofParent config models child parent with index := (move parent).index } := by
  rw [Candidate.ofParent, retained.name_eq, retained.suppliedUnder_move isParent keptParent]
  rfl

theorem index_le_iff (retained : Retained keeps move models others operations kept)
    {first second : Operation} (isFirst : first ∈ operations) (keptFirst : keeps first.kind)
    (isSecond : second ∈ operations) (keptSecond : keeps second.kind) :
    (move first).index ≤ (move second).index ↔ first.index ≤ second.index := by
  have moved := retained.keptOrdered
  rw [retained.kept_eq, List.pairwise_map] at moved
  -- Along the retained operations both indexes grow, so each says which of two stands first.
  have both := (retained.ordered.filter fun operation => keeps operation.kind).and moved
  refine List.Pairwise.forall_of_forall_of_flip (R := fun first second : Operation =>
    (move first).index ≤ (move second).index ↔ first.index ≤ second.index)
    (fun operation _ => by simp) (both.imp ?_) (both.imp ?_)
    (List.mem_filter.mpr ⟨isFirst, keptFirst⟩) (List.mem_filter.mpr ⟨isSecond, keptSecond⟩)
  · intro earlier later before
    omega
  · intro earlier later before
    unfold flip
    omega

theorem ranked_eq (retained : Retained keeps move models others operations kept)
    (keptChild : keeps child.kind) :
    (Candidate.ranked config others kept (move child)).map (·.parent) =
      (Candidate.ranked config models operations child).map (·.parent) := by
  have suits : kept.filter (fun parent =>
        Candidate.suppliedUnder config others (move child) parent ≠ []) =
      (operations.filter fun parent =>
        Candidate.suppliedUnder config models child parent ≠ []).map move := by
    rw [retained.kept_eq, List.filter_map, List.filter_filter]
    refine congrArg _ (List.filter_congr fun parent isParent => ?_)
    by_cases keptParent : keeps parent.kind
    · simp [retained.suppliedUnder_move isParent keptParent, keptParent]
    · have lacking : Candidate.suppliedUnder config models child parent = [] := by
        by_contra supplies
        rw [Candidate.kind_of_suppliedUnder supplies] at keptParent
        exact keptParent keptChild
      simp [lacking, keptParent]
  rw [Candidate.ranked_eq, Candidate.ranked_eq, suits, List.map_map]
  -- Both lists of candidates are sorted as the operations that they name.
  rw [← List.map_mergeSort (r := fun first second => Candidate.ranksBefore
      (Candidate.ofParent config models child first)
      (Candidate.ofParent config models child second)),
    ← List.map_mergeSort (r := fun first second => Candidate.ranksBefore
      (Candidate.ofParent config models child first)
      (Candidate.ofParent config models child second)), List.map_map, List.map_map]
  · exact List.map_congr_left fun parent _ => retained.name_eq parent
  · exact fun _ _ _ _ => rfl
  · intro first isFirst second isSecond
    obtain ⟨firstMember, firstSupplies⟩ := List.mem_filter.mp isFirst
    obtain ⟨secondMember, secondSupplies⟩ := List.mem_filter.mp isSecond
    have keptFirst : keeps first.kind := by
      rw [Candidate.kind_of_suppliedUnder (of_decide_eq_true firstSupplies)]
      exact keptChild
    have keptSecond : keeps second.kind := by
      rw [Candidate.kind_of_suppliedUnder (of_decide_eq_true secondSupplies)]
      exact keptChild
    have sameOrder : decide ((move first).index ≤ (move second).index) =
        decide (first.index ≤ second.index) := decide_eq_decide.mpr
      (retained.index_le_iff firstMember keptFirst secondMember keptSecond)
    rw [Function.comp_apply, Function.comp_apply,
      retained.ofParent_move firstMember keptFirst,
      retained.ofParent_move secondMember keptSecond]
    unfold Candidate.ranksBefore Candidate.ofParent
    dsimp only
    rw [sameOrder]

end Retained

/-! ## Choosing -/

/-- Two tables of parents give some names the same parents, which are among these names. -/
structure Parents.AgreeOn (holds : String → Prop) (parents others : Parents) : Prop where
  same : ∀ name, holds name → others.get? name = parents.get? name
  closed : ∀ name parent, holds name → parents.get? name = some parent → holds parent

namespace Parents.AgreeOn

variable {holds : String → Prop} {parents others : Parents}

theorem empty (holds : String → Prop) : AgreeOn holds ∅ ∅ where
  same := fun _ _ => rfl
  closed := fun _ _ _ impossible => nomatch impossible

theorem climb (agree : AgreeOn holds parents others) {start : String} {names : List String}
    (isName : holds start) (climbs : parents.Climb start names) : others.Climb start names := by
  induction climbs with
  | root atRoot => exact .root ((agree.same _ isName).trans atRoot)
  | step hasParent _ ih =>
    exact .step ((agree.same _ isName).trans hasParent) (ih (agree.closed _ _ isName hasParent))

theorem lineage_eq (agree : AgreeOn holds parents others) (acyclic : parents.Acyclic)
    (otherAcyclic : others.Acyclic) {start : String} (isName : holds start) :
    others.lineage start = parents.lineage start :=
  (otherAcyclic.climb_lineage start).unique (agree.climb isName (acyclic.climb_lineage start))

theorem insert_left (agree : AgreeOn holds parents others) {child : String}
    (another : ¬holds child) (parent : String) :
    AgreeOn holds (parents.insert child parent) others := by
  have unchanged {name : String} (isName : holds name) :
      (parents.insert child parent).get? name = parents.get? name :=
    Table.get?_insert_of_ne _ _ fun same => another (same ▸ isName)
  constructor
  · intro name isName
    rw [unchanged isName]
    exact agree.same name isName
  · intro name above isName found
    rw [unchanged isName] at found
    exact agree.closed name above isName found

theorem insert (agree : AgreeOn holds parents others) {child parent : String}
    (isParent : holds parent) :
    AgreeOn holds (parents.insert child parent) (others.insert child parent) := by
  constructor
  · intro name isName
    rw [Table.get?_insert, Table.get?_insert, agree.same name isName]
  · intro name above isName found
    rw [Table.get?_insert] at found
    split at found
    · cases found
      exact isParent
    · exact agree.closed name above isName found

end Parents.AgreeOn

namespace ParentChoice

open Parents (AgreeOn)

variable {holds : String → Prop} {parents others : Parents} {name : String}
  {candidates otherCandidates : List Candidate}

theorem parent_choose_eq (agree : AgreeOn holds parents others) (acyclic : parents.Acyclic)
    (otherAcyclic : others.Acyclic)
    (same : otherCandidates.map (·.parent) = candidates.map (·.parent))
    (isHeld : ∀ candidate ∈ candidates, holds candidate.parent) :
    (choose others name otherCandidates).parent? = (choose parents name candidates).parent? := by
  have chosen (parents : Parents) (candidates : List Candidate) :
      (choose parents name candidates).parent? = ((candidates.map (·.parent)).dropWhile
        fun parent => (parents.lineage parent).contains name).head? := by
    rw [List.dropWhile_map, List.head?_map]
    rfl
  rw [chosen, chosen, same]
  have held : ∀ parent ∈ candidates.map (·.parent), holds parent := by
    intro parent member
    obtain ⟨candidate, isCandidate, rfl⟩ := List.mem_map.mp member
    exact isHeld candidate isCandidate
  generalize candidates.map (·.parent) = names at held
  refine congrArg List.head? ?_
  induction names with
  | nil => rfl
  | cons first rest ih =>
    have sameFirst := agree.lineage_eq acyclic otherAcyclic (held first List.mem_cons_self)
    rw [List.dropWhile_cons, List.dropWhile_cons, sameFirst,
      ih fun parent member => held parent (List.mem_cons_of_mem _ member)]

theorem agreeOn_record (agree : AgreeOn holds parents others) (acyclic : parents.Acyclic)
    (otherAcyclic : others.Acyclic)
    (same : otherCandidates.map (·.parent) = candidates.map (·.parent))
    (isHeld : ∀ candidate ∈ candidates, holds candidate.parent) :
    AgreeOn holds (record parents (choose parents name candidates))
      (record others (choose others name otherCandidates)) := by
  unfold record
  rw [parent_choose_eq agree acyclic otherAcyclic same isHeld]
  split
  · next parent chosen =>
    obtain ⟨candidate, isCandidate, rfl⟩ := (of_choose_parent chosen).1
    exact agree.insert (isHeld candidate isCandidate)
  · exact agree

theorem agreeOn_record_left (agree : AgreeOn holds parents others) (another : ¬holds name)
    (candidates : List Candidate) :
    AgreeOn holds (record parents (choose parents name candidates)) others := by
  unfold record
  split
  · exact agree.insert_left another _
  · exact agree

/-- Whoever retains the operations with the names chooses their parents alike. -/
theorem agreeOn_chooseAll {tables otherTables : Candidates} {keeps : OperationKind → Bool}
    {move : Operation → Operation} (named : ∀ operation, (move operation).name = operation.name)
    {operations : List Operation}
    (heldExactly : ∀ operation ∈ operations, holds operation.name ↔ keeps operation.kind)
    (same : ∀ operation ∈ operations, keeps operation.kind →
      ((otherTables.get? operation.name).getD []).map (·.parent) =
        ((tables.get? operation.name).getD []).map (·.parent))
    (isHeld : ∀ operation ∈ operations, keeps operation.kind →
      ∀ candidate ∈ (tables.get? operation.name).getD [], holds candidate.parent)
    (agree : AgreeOn holds parents others) (acyclic : parents.Acyclic)
    (otherAcyclic : others.Acyclic) :
    AgreeOn holds (chooseAll tables parents operations).2
      (chooseAll otherTables others
        ((operations.filter fun operation => keeps operation.kind).map move)).2 := by
  induction operations generalizing parents others with
  | nil => exact agree
  | cons operation rest ih =>
    have later {parents others : Parents} := @ih parents others
      (fun other member => heldExactly other (List.mem_cons_of_mem _ member))
      (fun other member => same other (List.mem_cons_of_mem _ member))
      (fun other member => isHeld other (List.mem_cons_of_mem _ member))
    have isFirst : operation ∈ operation :: rest := List.mem_cons_self
    have recorded := acyclic_record acyclic operation.name
      ((tables.get? operation.name).getD [])
    by_cases isKept : keeps operation.kind
    · rw [List.filter_cons_of_pos (by simpa using isKept), List.map_cons]
      unfold chooseAll
      dsimp only
      rw [named]
      refine later ?_ recorded (acyclic_record otherAcyclic _ _)
      exact agreeOn_record agree acyclic otherAcyclic (same operation isFirst isKept)
        (isHeld operation isFirst isKept)
    · rw [List.filter_cons_of_neg (by simpa using isKept)]
      have another : ¬holds operation.name := fun isName =>
        isKept ((heldExactly operation isFirst).mp isName)
      exact later (agreeOn_record_left agree another _) recorded otherAcyclic

end ParentChoice

namespace Retained

variable {keeps : OperationKind → Bool} {move : Operation → Operation}
  {config : Config} {models others : Table Model} {operations kept : List Operation}

theorem distinct_kept (retained : Retained keeps move models others operations kept) :
    (kept.map (·.name)).Nodup := by
  have names : kept.map (·.name) =
      (operations.filter fun operation => keeps operation.kind).map (·.name) := by
    rw [retained.kept_eq, List.map_map]
    exact List.map_congr_left fun operation _ => retained.name_eq operation
  rw [names]
  exact retained.distinct.sublist (List.filter_sublist.map _)

/-- The retained operations choose the parents that they chose among all operations. -/
theorem agreeOn_ofOperations (retained : Retained keeps move models others operations kept)
    (config : Config) : Parents.AgreeOn (IsKept keeps operations)
      (Parents.ofOperations config models operations)
      (Parents.ofOperations config others kept) := by
  have whole : Parents.ofOperations config others kept =
      (ParentChoice.chooseAll (Candidate.ofOperations config others kept) ∅
        ((operations.filter fun operation => keeps operation.kind).map move)).2 := by
    unfold Parents.ofOperations Parents.ofCandidates
    rw [← retained.kept_eq]
  rw [whole]
  refine ParentChoice.agreeOn_chooseAll retained.name_eq (fun _ => retained.isKept_iff) ?_ ?_
    (.empty _) Parents.acyclic_empty Parents.acyclic_empty
  · intro child isChild keptChild
    have isMoved : move child ∈ kept := by
      rw [retained.kept_eq]
      exact List.mem_map_of_mem (List.mem_filter.mpr ⟨isChild, keptChild⟩)
    have found : (Candidate.ofOperations config others kept).get? (move child).name =
        some (Candidate.ranked config others kept (move child)) :=
      Candidate.get?_ofOperations retained.distinct_kept isMoved
    rw [retained.name_eq] at found
    rw [found, Candidate.get?_ofOperations retained.distinct isChild]
    exact retained.ranked_eq keptChild
  · intro child isChild keptChild candidate member
    rw [Candidate.get?_ofOperations retained.distinct isChild] at member
    obtain ⟨parent, isParent, supplies, rfl⟩ := Candidate.mem_ranked.mp member
    exact ⟨parent, isParent, Candidate.kind_of_suppliedUnder supplies ▸ keptChild, rfl⟩

end Retained

end ChainedSdk
