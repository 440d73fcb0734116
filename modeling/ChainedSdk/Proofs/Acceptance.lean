import ChainedSdk.Proofs.Resolution
/-!
# What an accepted forest is

The check walks a forest with the operations above each node and stops at the first fault. Seen as a
whole, it accepts exactly the forests in which every level, every path from a root and every single
node is in order, however the forest came about.
-/

namespace ChainedSdk

variable {context : Context} {models : Table Model}

/-- A node in which everything that it refers to is there, and whose children, if it has any, stand
below a model with distinct methods that are no key fields of the model. -/
structure Node.Faultless (context : Context) (models : Table Model) (node : Node) : Prop where
  typed : ∃ type, context.type? node.operation.resultType = some type
  modelled : ∀ name ∈ node.operation.model?, ∃ model, models.get? name = some model
  inherits : ∀ value ∈ node.inherited, ∃ model field type,
    models.get? value.model = some model ∧ model.field? value.field = some field ∧
      context.type? field.type.name = some type
  parent : node.children ≠ [] → ∃ model, node.model? = some model
  siblings : (node.children.map (·.method)).Nodup
  unshadowed : ∀ model, node.model? = some model → ∀ child ∈ node.children,
    ∀ field ∈ model.keyFields context.config, child.method ≠ field.name

/-- A forest with distinct methods on every level of roots, without an operation that stands below
itself, and without a faulty node. -/
structure Forest.Faultless (context : Context) (models : Table Model) (forest : Forest) : Prop where
  roots : ∀ entry ∈ forest, (entry.2.map (·.method)).Nodup
  paths : ∀ entry ∈ forest, ∀ root ∈ entry.2, ∀ higher node, root.Below higher node →
    ((node :: higher).map (·.operation.name)).Nodup
  nodes : ∀ node ∈ forest.walk, node.Faultless context models

theorem Model.mem_keys_reserved {config : Config} {model : Model} {name : String} :
    name ∈ (model.reserved config).keys ↔ ∃ field ∈ model.keyFields config, field.name = name := by
  rw [reserved, Table.ofList, Table.keys_insertAll, List.mem_eraseDups]
  simp [Table.keys, Table.empty]

namespace Node

/-- What the check asks of a node alone, the operations above it and the children apart. -/
theorem faultless_iff {node : Node} :
    node.Faultless context models ↔
      (∃ type, context.type? node.operation.resultType = some type) ∧
      (∀ name ∈ node.operation.model?, name ∈ models.keys) ∧
      (∀ value ∈ node.inherited, value.Resolves context models) ∧
      (node.children ≠ [] → ∃ model, node.model? = some model ∧
        DistinctMethods (model.reserved context.config).keys node.children) := by
  constructor
  · intro fine
    refine ⟨fine.typed,
      fun name isModel => (Table.mem_keys_iff _ _).mpr (fine.modelled name isModel),
      fine.inherits, fun some_ => ?_⟩
    obtain ⟨model, isModel⟩ := fine.parent some_
    refine ⟨model, isModel, fine.siblings, fun child isChild taken => ?_⟩
    obtain ⟨field, isKey, same⟩ := Model.mem_keys_reserved.mp taken
    exact fine.unshadowed model isModel child isChild field isKey same.symm
  · rintro ⟨typed, modelled, inherits, parent⟩
    refine ⟨typed, fun name isModel => (Table.mem_keys_iff _ _).mp (modelled name isModel),
      inherits, fun some_ => ?_, ?_, ?_⟩
    · obtain ⟨model, isModel, _⟩ := parent some_
      exact ⟨model, isModel⟩
    · by_cases none_ : node.children = []
      · rw [none_]
        exact List.nodup_nil
      · obtain ⟨_, _, distinct, _⟩ := parent none_
        exact distinct
    · intro model isModel child isChild field isKey same
      obtain ⟨other, isOther, _, free⟩ := parent (List.ne_nil_of_mem isChild)
      rw [isModel] at isOther
      cases isOther
      exact free child isChild (Model.mem_keys_reserved.mpr ⟨field, isKey, same.symm⟩)

theorem WellFormed.below {root node : Node} {above : List String} {higher : List Node}
    (wellFormed : root.WellFormed context models above) (below : root.Below higher node) :
    node.WellFormed context models (above ++ (higher.map (·.operation.name)).reverse) := by
  induction below with
  | root =>
    rw [List.map_nil, List.reverse_nil, List.append_nil]
    exact wellFormed
  | child _ isChild ih =>
    obtain ⟨_, _, _, _, _, children⟩ := wellFormed_iff.mp ih
    have isWellFormed := allWellFormed_iff.mp children _ isChild
    rw [List.append_assoc] at isWellFormed
    rw [List.map_cons, List.reverse_cons]
    exact isWellFormed

/-- A tree is well-formed below some operations exactly where no node of it has a fault and none
stands below its own operation. -/
theorem wellFormed_iff_below {root : Node} {above : List String} :
    root.WellFormed context models above ↔ ∀ higher node, root.Below higher node →
      node.operation.name ∉ above ++ (higher.map (·.operation.name)).reverse ∧
        node.Faultless context models := by
  constructor
  · intro wellFormed higher node below
    obtain ⟨fresh, typed, modelled, inherits, parent, _⟩ :=
      wellFormed_iff.mp (wellFormed.below below)
    exact ⟨fresh, faultless_iff.mpr ⟨typed, modelled, inherits, parent⟩⟩
  · intro placed
    induction root using induction_children generalizing above with
    | step root ih =>
      obtain ⟨fresh, faultless⟩ := placed [] root .root
      rw [List.map_nil, List.reverse_nil, List.append_nil] at fresh
      obtain ⟨typed, modelled, inherits, parent⟩ := faultless_iff.mp faultless
      refine wellFormed_iff.mpr ⟨fresh, typed, modelled, inherits, parent,
        allWellFormed_iff.mpr fun child isChild => ih child isChild ?_⟩
      -- What stands below a child stands below the root as well, one operation further away.
      intro higher node below
      have lower := placed _ node (below.lift isChild)
      rw [List.map_append, List.reverse_append, ← List.append_assoc] at lower
      exact lower

/-- No operation repeats on the way up from any node exactly where none of them stands below
itself. -/
theorem nodup_paths_iff {root : Node} :
    (∀ higher node, root.Below higher node → ((node :: higher).map (·.operation.name)).Nodup) ↔
      ∀ higher node, root.Below higher node →
        node.operation.name ∉ (higher.map (·.operation.name)).reverse := by
  constructor
  · intro distinct higher node below again
    exact (List.nodup_cons.mp (distinct higher node below)).1 (List.mem_reverse.mp again)
  · intro apart higher node below
    induction below with
    | root => exact List.nodup_singleton _
    | child upper isChild ih =>
      refine List.nodup_cons.mpr ⟨fun again => ?_, ih⟩
      exact apart _ _ (.child upper isChild) (List.mem_reverse.mpr again)

end Node

namespace Forest

variable {forest : Forest}

theorem wellFormed_iff_faultless :
    forest.WellFormed context models ↔ forest.Faultless context models := by
  have trees (entry : OperationKind × List Node) :
      Node.AllWellFormed context models [] entry.2 ↔ ∀ root ∈ entry.2, ∀ higher node,
        root.Below higher node → node.operation.name ∉ (higher.map (·.operation.name)).reverse ∧
          node.Faultless context models := by
    rw [Node.allWellFormed_iff]
    exact forall₂_congr fun root _ => Node.wellFormed_iff_below
  constructor
  · intro wellFormed
    refine ⟨fun entry isEntry => (wellFormed entry isEntry).1.1, ?_, ?_⟩
    · intro entry isEntry root isRoot
      refine Node.nodup_paths_iff.mpr fun higher node below => ?_
      exact ((trees entry).mp (wellFormed entry isEntry).2 root isRoot higher node below).1
    · intro node isNode
      obtain ⟨entry, isEntry, root, isRoot, inTree⟩ := mem_walk.mp isNode
      obtain ⟨higher, below⟩ := Node.mem_walk_iff_below.mp inTree
      exact ((trees entry).mp (wellFormed entry isEntry).2 root isRoot higher node below).2
  · intro faultless entry isEntry
    refine ⟨⟨faultless.roots entry isEntry, fun _ _ => List.not_mem_nil⟩, (trees entry).mpr ?_⟩
    intro root isRoot higher node below
    exact ⟨Node.nodup_paths_iff.mp (faultless.paths entry isEntry root isRoot) higher node below,
      faultless.nodes node (mem_walk_of_below isEntry isRoot below)⟩

/-- Whatever the context, the models and the forest are, the check accepts exactly the forests
without a fault. -/
theorem check_accepts_iff (context : Context) (models : Table Model) (forest : Forest) :
    forest.check context models = .ok () ↔ forest.Faultless context models :=
  check_eq_ok_iff.trans wellFormed_iff_faultless

end Forest

end ChainedSdk
