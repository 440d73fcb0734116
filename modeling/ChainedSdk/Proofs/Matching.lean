import ChainedSdk.Proofs.Resolution
import Mathlib
/-!
# Candidates and inherited variables agree

A candidate is chosen by the variables that its result supplies. Once the trees are built, the
variables of an operation are looked for again, in another way and in all results above it. Both
select the same: what a key field supplies is identifying in either mode of matching, so the nearest
result supplies what the candidate names and nothing else.
-/

namespace ChainedSdk

variable {context : Context} {config : Config}

/-! ## What models supply -/

/-- A variable of a known type that is marked as identifying by the rule of the context. -/
def Variable.Marked (input : Variable) (context : Context) : Prop :=
  ∃ shape type, context.type? input.typeName = some type ∧ shape.isList = input.isList ∧
    input.isIdentifying = context.isIdentifying input.name shape type

theorem marked_of_readVariable {operation : String} {declared : VariableDefinition}
    {input : Variable} (read : context.readVariable operation declared = .ok input) :
    input.Marked context := by
  unfold Context.readVariable at read
  split at read
  · cases read
  · next shape _ =>
    split at read
    · cases read
    · next type known =>
      cases read
      exact ⟨shape, type, known, rfl, rfl⟩

theorem Operation.Reads.marked {operation : Operation} {models : Table Model}
    {definition : OperationDefinition} (reads : operation.Reads context models definition)
    {input : Variable} (member : input ∈ operation.inputs) : input.Marked context := by
  obtain ⟨declared, _, read⟩ := Outcome.exists_of_forall₂ reads.inputs member
  exact marked_of_readVariable read

/-- By its name in one mode, by its type in the other: a key field has the type of the variable. -/
theorem Variable.Marked.isIdentifying_of_supplies {input : Variable} (marked : input.Marked context)
    {model : Model} {field : ModelField} (isKey : field ∈ model.keyFields context.config)
    (known : context.type? field.type.name = some field.type) (supplies : field.supplies input) :
    input.isIdentifying = true := by
  obtain ⟨shape, type, isType, isShape, mark⟩ := marked
  have keyed := (List.mem_filter.mp isKey).2
  simp only [Model.isKeyField, Bool.and_eq_true, Bool.or_eq_true, Bool.not_eq_true',
    decide_eq_true_eq] at keyed
  obtain ⟨⟨⟨single, leaf⟩, _⟩, listed⟩ := keyed
  simp only [ModelField.supplies, Bool.and_eq_true, decide_eq_true_eq] at supplies
  obtain ⟨⟨⟨sameName, sameType⟩, sameList⟩, _⟩ := supplies
  rw [mark]
  unfold Context.isIdentifying
  cases matching : context.config.chainMatch with
  | identifying =>
    have isListed := listed.resolve_left (not_not.mpr matching)
    rw [← sameName] at isListed
    exact isListed
  | any =>
    have same : some type = some field.type := by
      rw [← isType, ← known, sameType]
    cases same
    simp only [isShape, sameList, single, leaf, Bool.not_false, Bool.and_self]

section Supply

variable {models : Table Model} {model : Model} {input : Variable}

theorem Variable.Marked.isIdentifying_of_supply? (marked : input.Marked context)
    (fits : model.Fits context models) {depth : Nat} {entry : Inherited}
    (supplied : model.supply? context.config depth input = some entry) :
    input.isIdentifying = true := by
  obtain ⟨field, isKey, supplies, _, _⟩ := Model.supply?_eq_some supplied
  exact marked.isIdentifying_of_supplies isKey
    (fits.typed field (Model.mem_fields_of_mem_keyFields isKey)) supplies

theorem Variable.supplier?_of_supply? {further : List Model} {entry : Inherited} {depth : Nat}
    (supplied : model.supply? config depth input = some entry) :
    input.supplier? config depth (model :: further) = some entry := by
  rw [supplier?, supplied]

/-- What is inherited from the nearest model is what that model supplies. -/
theorem Variable.filter_inherited? (model : Model) (further : List Model) (input : Variable) :
    (input.inherited? config (model :: further)).filter (·.depth = 0) =
      if input.isRequired then model.supply? config 0 input else none := by
  unfold inherited?
  split
  · cases supplied : model.supply? config 0 input with
    | some entry =>
      obtain ⟨field, _, _, _, same⟩ := Model.supply?_eq_some supplied
      rw [supplier?_of_supply? supplied, same]
      rfl
    | none =>
      rw [supplier?, supplied]
      cases found : input.supplier? config (0 + 1) further with
      | none => rfl
      | some entry =>
        obtain ⟨index, _, _, suppliedThere, _⟩ := supplier?_eq_some found
        obtain ⟨_, _, _, _, same⟩ := Model.supply?_eq_some suppliedThere
        have deeper : entry.depth ≠ 0 := by
          rw [same]
          simp only
          omega
        simp [deeper]
  · rfl

theorem Operation.filter_inherited (operation : Operation) (model : Model)
    (further : List Model) :
    (operation.inherited config (model :: further)).filter (·.depth = 0) =
      operation.required.filterMap (model.supply? config 0) := by
  rw [inherited, required, List.filter_filterMap, List.filterMap_filter]
  apply List.filterMap_congr
  intro input _
  exact Variable.filter_inherited? model further input

end Supply

/-! ## What candidates name -/

namespace Candidate

variable {models : Table Model} {model : Model}

theorem suppliedBy?_eq_some {inputs : List Variable} {found : List Inherited}
    (supplied : suppliedBy? config model inputs = some found) :
    found = inputs.filterMap (model.supply? config 0) ∧
      (config.chainMatch = .identifying →
        ∀ input ∈ inputs, ∃ entry, model.supply? config 0 input = some entry) := by
  induction inputs generalizing found with
  | nil =>
    cases supplied
    exact ⟨rfl, fun _ _ impossible => nomatch impossible⟩
  | cons input rest ih =>
    rw [suppliedBy?] at supplied
    cases atInput : model.supply? config 0 input with
    | some entry =>
      rw [atInput] at supplied
      obtain ⟨others, isRest, rfl⟩ := Option.map_eq_some_iff.mp supplied
      obtain ⟨same, every⟩ := ih isRest
      constructor
      · rw [List.filterMap_cons, atInput, same]
      · intro identifying
        exact List.forall_mem_cons.mpr ⟨⟨entry, atInput⟩, every identifying⟩
    | none =>
      rw [atInput] at supplied
      by_cases identifying : config.chainMatch = .identifying
      · simp [identifying] at supplied
      · simp only [identifying, if_false] at supplied
        constructor
        · rw [List.filterMap_cons, atInput, (ih supplied).1]
        · intro impossible
          exact absurd impossible identifying

/-- A candidate has a single result with a model, and names what that model supplies; in identifying
mode the model supplies every required identifying variable. -/
theorem supplied_of_suppliedUnder {child parent : Operation}
    (marked : ∀ input ∈ child.inputs, input.Marked context)
    (fits : ∀ name model, models.get? name = some model → model.Fits context models)
    (supplied : suppliedUnder context.config models child parent ≠ []) :
    ∃ model, parent.resultModel? models = some model ∧ parent.isList = false ∧
      suppliedUnder context.config models child parent =
        child.required.filterMap (model.supply? context.config 0) ∧
      (context.config.chainMatch = .identifying → ∀ input ∈ child.required,
        input.isIdentifying → ∃ entry, model.supply? context.config 0 input = some entry) := by
  obtain ⟨model, isModel, single, found⟩ := suppliedBy?_of_suppliedUnder supplied
  obtain ⟨same, every⟩ := suppliedBy?_eq_some found
  obtain ⟨name, _, present⟩ := Operation.resultModel?_eq_some isModel
  refine ⟨model, isModel, single, ?_, ?_⟩
  · rw [same, List.filterMap_filter]
    apply List.filterMap_congr
    intro input isRequired
    cases atInput : model.supply? context.config 0 input with
    | none => simp
    | some entry =>
      have isInput := List.mem_of_mem_filter isRequired
      have identifying := (marked input isInput).isIdentifying_of_supply? (fits name model present)
        atInput
      simp [identifying]
  · intro identifying input isRequired isIdentifying
    exact every identifying input (List.mem_filter.mpr ⟨isRequired, isIdentifying⟩)

end Candidate

/-! ## Built forests -/

namespace Forest

variable {models : Table Model} {operations : List Operation} {forest : Forest}

/-- A child node stands below the model of its parent and others, and is supplied by that model. -/
structure Linked (context : Context) (models : Table Model) (parent child : Node) (model : Model)
    (further : List Model) : Prop where
  isModel : parent.model? = some model
  isResult : parent.operation.resultModel? models = some model
  single : parent.operation.isList = false
  arguments_eq : child.arguments = child.operation.arguments context.config (model :: further)
  inherited_eq : child.inherited = child.operation.inherited context.config (model :: further)
  supplies : Candidate.suppliedUnder context.config models child.operation parent.operation ≠ []
  supplied_eq : Candidate.suppliedUnder context.config models child.operation parent.operation =
    child.operation.required.filterMap (model.supply? context.config 0)
  whole : context.config.chainMatch = .identifying → ∀ input ∈ child.operation.required,
    input.isIdentifying → ∃ entry, model.supply? context.config 0 input = some entry

section Grown

variable (grown : Grown context.config models
    (Parents.ofCandidates (Candidate.ofOperations context.config models operations) operations)
    operations forest)

include grown

theorem Grown.mem_candidates {parent child : Node} (isParent : parent ∈ forest.walk)
    (isChild : child ∈ parent.children) :
    ∃ candidate ∈ ((Candidate.ofOperations context.config models operations).get?
      child.operation.name).getD [], candidate.parent = parent.operation.name := by
  obtain ⟨entry, isEntry, root, isRoot, inTree⟩ := mem_walk.mp isParent
  have chosen := ((grown.faithful isEntry isRoot).parent_of_child inTree isChild).2
  obtain ⟨_, _, _, isCandidate⟩ := Parents.get?_ofCandidates chosen
  exact isCandidate

/-- Whatever candidate has the name of the parent names what the parent supplies. -/
theorem Grown.supplied_eq (distinct : (operations.map (·.name)).Nodup) {parent child : Node}
    (isParent : parent ∈ forest.walk) (isChild : child ∈ parent.children) {candidate : Candidate}
    (isCandidate : candidate ∈ ((Candidate.ofOperations context.config models operations).get?
      child.operation.name).getD []) (isNamed : candidate.parent = parent.operation.name) :
    Candidate.suppliedUnder context.config models child.operation parent.operation ≠ [] ∧
      candidate.supplied =
        Candidate.suppliedUnder context.config models child.operation parent.operation := by
  obtain ⟨entry, isEntry, root, isRoot, inTree⟩ := mem_walk.mp isParent
  have isOperation := ((grown.faithful isEntry isRoot).parent_of_child inTree isChild).1
  obtain ⟨lower, isLower, sameLower, isRanked⟩ := Candidate.exists_child isCandidate
  obtain ⟨upper, isUpper, supplies, rfl⟩ := Candidate.mem_ranked.mp isRanked
  have lowerEq := List.inj_on_of_nodup_map distinct isLower isOperation sameLower
  have upperEq := List.inj_on_of_nodup_map distinct isUpper (grown.operation_mem isParent) isNamed
  rw [← lowerEq, ← upperEq]
  exact ⟨supplies, rfl⟩

theorem Grown.linked (distinct : (operations.map (·.name)).Nodup)
    (coherent : context.Coherent models)
    (marked : ∀ operation ∈ operations, ∀ input ∈ operation.inputs, input.Marked context)
    {parent child : Node} (isParent : parent ∈ forest.walk) (isChild : child ∈ parent.children) :
    ∃ model further, Linked context models parent child model further := by
  obtain ⟨candidate, isCandidate, isNamed⟩ := grown.mem_candidates isParent isChild
  have supplies := (grown.supplied_eq distinct isParent isChild isCandidate isNamed).1
  obtain ⟨entry, isEntry, root, isRoot, inTree⟩ := mem_walk.mp isParent
  have isOperation := ((grown.faithful isEntry isRoot).parent_of_child inTree isChild).1
  obtain ⟨model, isResult, single, supplied, whole⟩ :=
    Candidate.supplied_of_suppliedUnder (marked _ isOperation) coherent.fits supplies
  obtain ⟨higher, below⟩ := Node.mem_walk_iff_below.mp inTree
  have isModel := (grown.settled entry isEntry root isRoot higher parent below).model_eq
  have settled := grown.settled entry isEntry root isRoot _ child (.child below isChild)
  rw [isResult] at isModel
  have above : (parent :: higher).filterMap (·.model?) = model :: higher.filterMap (·.model?) := by
    rw [List.filterMap_cons, isModel]
  exact ⟨model, higher.filterMap (·.model?), {
    isModel, isResult, single, supplies, whole
    arguments_eq := by rw [settled.arguments_eq, above]
    inherited_eq := by rw [settled.inherited_eq, above]
    supplied_eq := supplied }⟩

end Grown

namespace Linked

variable {parent child : Node} {model : Model} {further : List Model}

theorem filter_inherited (linked : Linked context models parent child model further) :
    child.inherited.filter (·.depth = 0) =
      Candidate.suppliedUnder context.config models child.operation parent.operation := by
  rw [linked.inherited_eq, Operation.filter_inherited, linked.supplied_eq]

theorem exists_nearest (linked : Linked context models parent child model further) :
    ∃ entry ∈ child.inherited, entry.depth = 0 := by
  have supplies := linked.supplies
  rw [← linked.filter_inherited] at supplies
  obtain ⟨entry, member⟩ := List.exists_mem_of_ne_nil _ supplies
  have spec := List.mem_filter.mp member
  exact ⟨entry, spec.1, of_decide_eq_true spec.2⟩

/-- In identifying mode a required identifying variable comes from the nearest model. -/
theorem inherited?_eq_some (linked : Linked context models parent child model further)
    (identifying : context.config.chainMatch = .identifying) {input : Variable}
    (isInput : input ∈ child.operation.inputs) (isRequired : input.isRequired)
    (isIdentifying : input.isIdentifying) :
    ∃ entry, input.inherited? context.config (model :: further) = some entry ∧
      entry.depth = 0 := by
  have required : input ∈ child.operation.required := List.mem_filter.mpr ⟨isInput, isRequired⟩
  obtain ⟨entry, supplied⟩ := linked.whole identifying input required isIdentifying
  obtain ⟨field, _, _, _, same⟩ := Model.supply?_eq_some supplied
  refine ⟨entry, ?_, ?_⟩
  · rw [Variable.inherited?, if_pos isRequired]
    exact Variable.supplier?_of_supply? supplied
  · rw [same]

end Linked

/-- The nodes of a forest inherit what their candidates name, and in identifying mode all that is
identifying and nothing else, from the nearest model. -/
structure Matched (config : Config) (models : Table Model) (candidates : Candidates)
    (forest : Forest) : Prop where
  chosen : ∀ parent ∈ forest.walk, ∀ child ∈ parent.children,
    ∃ candidate ∈ (candidates.get? child.operation.name).getD [],
      candidate.parent = parent.operation.name
  agrees : ∀ parent ∈ forest.walk, ∀ child ∈ parent.children,
    ∀ candidate ∈ (candidates.get? child.operation.name).getD [],
      candidate.parent = parent.operation.name →
        child.inherited.filter (·.depth = 0) = candidate.supplied
  inherits : ∀ parent ∈ forest.walk, ∀ child ∈ parent.children,
    ∃ entry ∈ child.inherited, entry.depth = 0
  single : ∀ node ∈ forest.walk, node.children ≠ [] → node.operation.isList = false ∧
    ∃ model, node.model? = some model ∧ node.operation.resultModel? models = some model
  identifies : ∀ node ∈ forest.walk, ∀ entry ∈ node.inherited, entry.input.isIdentifying
  nearest : config.chainMatch = .identifying →
    ∀ node ∈ forest.walk, ∀ entry ∈ node.inherited, entry.depth = 0
  exhausts : config.chainMatch = .identifying →
    ∀ parent ∈ forest.walk, ∀ child ∈ parent.children, ∀ input ∈ child.arguments,
      input.isRequired → input.isIdentifying = false

section Grown

variable (grown : Grown context.config models
    (Parents.ofCandidates (Candidate.ofOperations context.config models operations) operations)
    operations forest)
  (coherent : context.Coherent models)
  (marked : ∀ operation ∈ operations, ∀ input ∈ operation.inputs, input.Marked context)

include grown coherent marked

theorem Grown.isIdentifying_of_inherited {node : Node} (isNode : node ∈ forest.walk)
    {entry : Inherited} (member : entry ∈ node.inherited) : entry.input.isIdentifying = true := by
  obtain ⟨isInput, model, field, present, isKey, supplies, _, _⟩ :=
    grown.exists_supplier coherent isNode member
  have isMarked := marked _ (grown.operation_mem isNode) _ isInput
  apply isMarked.isIdentifying_of_supplies isKey _ supplies
  exact (coherent.fits _ _ present).typed field (Model.mem_fields_of_mem_keyFields isKey)

theorem Grown.depth_eq_zero (distinct : (operations.map (·.name)).Nodup)
    (identifying : context.config.chainMatch = .identifying) {node : Node}
    (isNode : node ∈ forest.walk) {entry : Inherited} (member : entry ∈ node.inherited) :
    entry.depth = 0 := by
  have isIdentifying := grown.isIdentifying_of_inherited coherent marked isNode member
  obtain ⟨entryRoots, isEntry, root, isRoot, inTree⟩ := mem_walk.mp isNode
  obtain ⟨higher, below⟩ := Node.mem_walk_iff_below.mp inTree
  cases below with
  | root =>
    have settled := grown.settled entryRoots isEntry node isRoot [] node .root
    rw [settled.inherited_eq] at member
    obtain ⟨_, found⟩ := Operation.mem_inherited.mp member
    obtain ⟨_, _, _, isAbove, _⟩ := Variable.inherited?_eq_some found
    simp at isAbove
  | @child above parent _ upperBelow isChild =>
    have isParent := mem_walk_of_below isEntry isRoot upperBelow
    obtain ⟨model, further, linked⟩ := grown.linked distinct coherent marked isParent isChild
    rw [linked.inherited_eq] at member
    obtain ⟨isInput, found⟩ := Operation.mem_inherited.mp member
    have isRequired := (Variable.inherited?_eq_some found).1
    obtain ⟨nearest, foundNearest, isNearest⟩ :=
      linked.inherited?_eq_some identifying isInput isRequired isIdentifying
    have same : some entry = some nearest := found.symm.trans foundNearest
    cases same
    exact isNearest

theorem Grown.matched (distinct : (operations.map (·.name)).Nodup) :
    forest.Matched context.config models
      (Candidate.ofOperations context.config models operations) where
  chosen := fun _ isParent _ isChild => grown.mem_candidates isParent isChild
  agrees := by
    intro parent isParent child isChild candidate isCandidate isNamed
    obtain ⟨_, _, linked⟩ := grown.linked distinct coherent marked isParent isChild
    rw [linked.filter_inherited]
    exact (grown.supplied_eq distinct isParent isChild isCandidate isNamed).2.symm
  inherits := by
    intro parent isParent child isChild
    obtain ⟨_, _, linked⟩ := grown.linked distinct coherent marked isParent isChild
    exact linked.exists_nearest
  single := by
    intro node isNode some_
    obtain ⟨child, isChild⟩ := List.exists_mem_of_ne_nil _ some_
    obtain ⟨model, _, linked⟩ := grown.linked distinct coherent marked isNode isChild
    exact ⟨linked.single, model, linked.isModel, linked.isResult⟩
  identifies := fun _ isNode _ member => grown.isIdentifying_of_inherited coherent marked isNode member
  nearest := fun identifying _ isNode _ member =>
    grown.depth_eq_zero coherent marked distinct identifying isNode member
  exhausts := by
    intro identifying parent isParent child isChild input isArgument isRequired
    obtain ⟨model, further, linked⟩ := grown.linked distinct coherent marked isParent isChild
    rw [linked.arguments_eq] at isArgument
    obtain ⟨isInput, isLeft⟩ := Operation.mem_arguments.mp isArgument
    by_contra marks
    obtain ⟨entry, found, _⟩ := linked.inherited?_eq_some identifying isInput isRequired
      (Bool.not_eq_false _ ▸ marks)
    rw [isLeft] at found
    cases found

end Grown

/-- Operations are read and candidates ranked over extracted models of the same context, whatever
documents both come from; a forest that is then assembled agrees with the candidates. -/
theorem assemble_matched {schema : Document} {files sources documents : List DocumentFile}
    {config : Config} {found : List Model}
    (built : Context.ofDocument schema files config = .ok context)
    (extracted : context.models sources = .ok found)
    (collected : (collectOperations context (modelTable found) documents).outcome = .ok operations)
    (assembled : (assemble context.config (modelTable found)
      (Candidate.ofOperations context.config (modelTable found) operations)
        operations).outcome = .ok forest) :
    forest.Matched context.config (modelTable found)
      (Candidate.ofOperations context.config (modelTable found) operations) := by
  obtain ⟨coherent, _, _⟩ := Context.spec_of_models built extracted
  obtain ⟨reads, distinct⟩ := collectOperations_eq_ok collected
  have marked : ∀ operation ∈ operations, ∀ input ∈ operation.inputs, input.Marked context := by
    intro operation isOperation input isInput
    obtain ⟨definition, _, isRead⟩ := Outcome.exists_of_forall₂ reads isOperation
    exact isRead.marked isInput
  obtain ⟨grown, _⟩ := grown_of_assemble distinct assembled
  exact grown.matched coherent marked distinct

private def shelfSchema : Document where
  definitions := [
    .type ⟨none, "Query", [], .object [] [
      ⟨none, "shelf", [⟨none, "id", .nonNull (.named "ID"), none, []⟩], .named "Shelf", []⟩,
      ⟨none, "label", [⟨none, "id", .nonNull (.named "ID"), none, []⟩], .named "Label", []⟩]⟩,
    .type ⟨none, "Shelf", [], .object [] [⟨none, "id", [], .nonNull (.named "ID"), []⟩]⟩,
    .type ⟨none, "Label", [], .object [] [⟨none, "text", [], .named "String", []⟩]⟩]

private def shelfQuery (name field : String) : Definition :=
  .operation ⟨none, .query, some name, [⟨none, "id", .nonNull (.named "ID"), none, []⟩], [],
    [.field ⟨none, name, [⟨"id", .variable "id"⟩], []⟩ (some [.field ⟨none, field, [], []⟩ none])]⟩

private def shelfFiles : List DocumentFile :=
  [⟨⟨[shelfQuery "shelf" "id", shelfQuery "label" "text"]⟩, none⟩]

/-- A label is called on a shelf, which supplies its variable. -/
theorem assemble_matched_shelf : ∃ context found operations forest,
    Context.ofDocument shelfSchema shelfFiles { requireNamePrefix := false } = .ok context ∧
    context.models shelfFiles = .ok found ∧
    (collectOperations context (modelTable found) shelfFiles).outcome = .ok operations ∧
    (assemble context.config (modelTable found)
      (Candidate.ofOperations context.config (modelTable found) operations)
        operations).outcome = .ok forest ∧
    (∃ parent ∈ forest.walk, ∃ child ∈ parent.children, child.operation.name = "label") ∧
    forest.Matched context.config (modelTable found)
      (Candidate.ofOperations context.config (modelTable found) operations) := by
  have whole : (do
      let context ← Context.ofDocument shelfSchema shelfFiles { requireNamePrefix := false }
      let found ← context.models shelfFiles
      let operations ← (collectOperations context (modelTable found) shelfFiles).outcome
      let forest ← (assemble context.config (modelTable found)
        (Candidate.ofOperations context.config (modelTable found) operations) operations).outcome
      return forest.walk.any fun parent => parent.children.any fun child =>
        child.operation.name = "label" : Except Error Bool) = .ok true := by
    cbv
  obtain ⟨context, built, whole⟩ := Outcome.bind_eq_ok_iff.mp whole
  obtain ⟨found, extracted, whole⟩ := Outcome.bind_eq_ok_iff.mp whole
  obtain ⟨operations, collected, whole⟩ := Outcome.bind_eq_ok_iff.mp whole
  obtain ⟨forest, assembled, whole⟩ := Outcome.bind_eq_ok_iff.mp whole
  have chained := Except.ok.inj whole
  simp only [List.any_eq_true, decide_eq_true_eq] at chained
  exact ⟨context, found, operations, forest, built, extracted, collected, assembled, chained,
    assemble_matched built extracted collected assembled⟩

end Forest

end ChainedSdk
