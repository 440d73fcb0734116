import ChainedSdk.Schema.Build
/-!
# What a type reference comes down to

Marks and lists are taken off a reference from the outside in: a mark at its front, then every list
together with a mark directly inside it. This ends at the name in the middle, unless a mark stands
on another one somewhere. Then that second mark is in the way, and the reference has no shape.
-/

namespace ChainedSdk

namespace TypeRef

/-- The nodes of a reference, from the outside in. -/
def nodes : TypeRef → List TypeRef
  | named name => [named name]
  | list item => list item :: item.nodes
  | nonNull inner => nonNull inner :: inner.nodes

def IsMarked (reference : TypeRef) : Prop := ∃ inner, reference = nonNull inner

/-- Somewhere a mark stands directly on a mark. -/
def HasDoubleMark (reference : TypeRef) : Prop :=
  ∃ inner, nonNull (nonNull inner) ∈ reference.nodes

/-- A mark that is not taken off is in the way: one at the front, or the second of two. -/
def IsBlocked (reference : TypeRef) : Prop := reference.IsMarked ∨ reference.HasDoubleMark

/-- A reference without the mark at its front, if it has one. -/
def unmarked : TypeRef → TypeRef
  | nonNull inner => inner
  | reference => reference

end TypeRef

/-- What a shape says of a reference: the innermost node is its name, its first flag tells whether
there is a list at any depth, and its second whether there is no mark at the front. -/
structure TypeShape.Describes (shape : TypeShape) (reference : TypeRef) : Prop where
  name : reference.nodes.getLast? = some (.named shape.name)
  isList : shape.isList = true ↔ ∃ item, .list item ∈ reference.nodes
  isOptional : shape.isOptional = true ↔ ¬reference.IsMarked

theorem TypeShape.Describes.unique {first second : TypeShape} {reference : TypeRef}
    (describes : first.Describes reference) (also : second.Describes reference) :
    first = second := by
  obtain ⟨name, isList, isOptional⟩ := first
  obtain ⟨otherName, otherIsList, otherIsOptional⟩ := second
  have sameName : some (TypeRef.named name) = some (.named otherName) :=
    describes.name.symm.trans also.name
  have sameList : isList = otherIsList :=
    Bool.eq_iff_iff.mpr (describes.isList.trans also.isList.symm)
  have sameOptional : isOptional = otherIsOptional :=
    Bool.eq_iff_iff.mpr (describes.isOptional.trans also.isOptional.symm)
  cases sameName
  rw [sameList, sameOptional]

namespace TypeRef

variable {reference item inner : TypeRef}

/-! ## Nodes -/

theorem getLast?_nodes_list (item : TypeRef) :
    (list item).nodes.getLast? = item.nodes.getLast? := by
  cases item with
  | named _ | list _ | nonNull _ => exact List.getLast?_cons_cons

theorem getLast?_nodes_nonNull (inner : TypeRef) :
    (nonNull inner).nodes.getLast? = inner.nodes.getLast? := by
  cases inner with
  | named _ | list _ | nonNull _ => exact List.getLast?_cons_cons

theorem getLast?_nodes_unmarked (reference : TypeRef) :
    reference.unmarked.nodes.getLast? = reference.nodes.getLast? := by
  cases reference with
  | named _ | list _ => rfl
  | nonNull inner => exact (getLast?_nodes_nonNull inner).symm

theorem list_mem_nodes_unmarked :
    list item ∈ reference.unmarked.nodes ↔ list item ∈ reference.nodes := by
  cases reference with
  | named _ | list _ => rfl
  | nonNull inner => simp [unmarked, nodes]

theorem not_isMarked_named (name : String) : ¬(named name).IsMarked :=
  fun ⟨_, impossible⟩ => nomatch impossible

theorem not_isMarked_list (item : TypeRef) : ¬(list item).IsMarked :=
  fun ⟨_, impossible⟩ => nomatch impossible

theorem not_isBlocked_named (name : String) : ¬(named name).IsBlocked := by
  rintro (marked | ⟨inner, member⟩)
  · exact not_isMarked_named name marked
  · cases List.mem_singleton.mp member

theorem hasDoubleMark_list : (list item).HasDoubleMark ↔ item.HasDoubleMark := by
  simp [HasDoubleMark, nodes]

theorem hasDoubleMark_nonNull : (nonNull inner).HasDoubleMark ↔ inner.IsBlocked := by
  constructor
  · rintro ⟨deeper, member⟩
    rcases List.mem_cons.mp member with atFront | further
    · cases atFront
      exact .inl ⟨deeper, rfl⟩
    · exact .inr ⟨deeper, further⟩
  · rintro (⟨deeper, rfl⟩ | ⟨deeper, further⟩)
    · exact ⟨deeper, List.mem_cons_self⟩
    · exact ⟨deeper, List.mem_cons_of_mem _ further⟩

theorem hasDoubleMark_iff_isBlocked : reference.HasDoubleMark ↔ reference.unmarked.IsBlocked := by
  cases reference with
  | nonNull inner => exact hasDoubleMark_nonNull
  | list item => exact (or_iff_right (not_isMarked_list item)).symm
  | named name =>
    exact ⟨.inr, fun blocked => absurd blocked (not_isBlocked_named name)⟩

theorem isBlocked_list : (list item).IsBlocked ↔ item.unmarked.IsBlocked := by
  rw [IsBlocked, or_iff_right (not_isMarked_list item), hasDoubleMark_list,
    hasDoubleMark_iff_isBlocked]

/-! ## The way to the name -/

theorem innermost?_list (isList : Bool) (item : TypeRef) :
    (list item).innermost? isList = item.unmarked.innermost? true := by
  cases item with
  | named _ | list _ | nonNull _ => rfl

/-- Induction along the way to the name: of a list, what is to be shown may be used of what is left
when the list and a mark directly inside it are taken off. -/
@[elab_as_elim]
theorem induction_unmarked {motive : TypeRef → Prop} (named : ∀ name, motive (.named name))
    (list : ∀ item : TypeRef, motive item.unmarked → motive (.list item))
    (nonNull : ∀ inner, motive (.nonNull inner)) : ∀ reference, motive reference
  | .named name => named name
  | .list (.named name) => list (.named name) (named name)
  | .list (.list item) => list (.list item) (induction_unmarked named list nonNull (.list item))
  | .list (.nonNull item) => list (.nonNull item) (induction_unmarked named list nonNull item)
  | .nonNull inner => nonNull inner

theorem innermost?_eq_none_iff (isList : Bool) :
    reference.innermost? isList = none ↔ reference.IsBlocked := by
  induction reference using induction_unmarked generalizing isList with
  | named name => exact iff_of_false (Option.some_ne_none _) (not_isBlocked_named name)
  | list item ih =>
    -- Taking off a list neither removes what is in the way nor puts something there.
    rw [innermost?_list, isBlocked_list]
    exact ih true
  | nonNull inner => exact iff_of_true rfl (.inl ⟨inner, rfl⟩)

theorem of_innermost? {isList : Bool} {found : String × Bool}
    (reached : reference.innermost? isList = some found) :
    reference.nodes.getLast? = some (named found.1) ∧
      (found.2 = true ↔ isList = true ∨ ∃ item, list item ∈ reference.nodes) := by
  induction reference using induction_unmarked generalizing isList with
  | named name =>
    cases reached
    simp [nodes]
  | list item ih =>
    rw [innermost?_list] at reached
    obtain ⟨last, passed⟩ := ih reached
    rw [getLast?_nodes_unmarked] at last
    -- Once a list has been passed the flag stays set, whatever follows.
    exact ⟨(getLast?_nodes_list item).trans last,
      iff_of_true (passed.mpr (.inl rfl)) (.inr ⟨item, List.mem_cons_self⟩)⟩
  | nonNull inner => cases reached

theorem exists_unwrap?_eq_map (reference : TypeRef) :
    ∃ isOptional : Bool, (isOptional = true ↔ ¬reference.IsMarked) ∧
      reference.unwrap? = (reference.unmarked.innermost? false).map fun found =>
        ⟨found.1, found.2, isOptional⟩ := by
  cases reference with
  | named name => exact ⟨true, iff_of_true rfl (not_isMarked_named name), rfl⟩
  | list item => exact ⟨true, iff_of_true rfl (not_isMarked_list item), rfl⟩
  -- The mark at the front is taken off here; marks behind a list do not bear on the flag.
  | nonNull inner => exact ⟨false, iff_of_false Bool.false_ne_true (· ⟨inner, rfl⟩), rfl⟩

theorem unwrap?_eq_none_iff : reference.unwrap? = none ↔ reference.HasDoubleMark := by
  obtain ⟨isOptional, _, unwrapped⟩ := exists_unwrap?_eq_map reference
  rw [unwrapped, Option.map_eq_none_iff, innermost?_eq_none_iff, hasDoubleMark_iff_isBlocked]

theorem describes_of_unwrap? {shape : TypeShape} (unwraps : reference.unwrap? = some shape) :
    shape.Describes reference := by
  obtain ⟨isOptional, front, unwrapped⟩ := exists_unwrap?_eq_map reference
  rw [unwrapped] at unwraps
  obtain ⟨found, reached, rfl⟩ := Option.map_eq_some_iff.mp unwraps
  obtain ⟨last, passed⟩ := of_innermost? reached
  refine ⟨(getLast?_nodes_unmarked reference).symm.trans last, ?_, front⟩
  simpa [list_mem_nodes_unmarked] using passed

theorem unwrap?_eq_some_iff {shape : TypeShape} :
    reference.unwrap? = some shape ↔ ¬reference.HasDoubleMark ∧ shape.Describes reference := by
  constructor
  · intro unwraps
    refine ⟨fun double => ?_, describes_of_unwrap? unwraps⟩
    rw [unwrap?_eq_none_iff.mpr double] at unwraps
    cases unwraps
  · rintro ⟨single, describes⟩
    -- There is a shape, and only one describes the reference.
    obtain ⟨found, unwraps⟩ := Option.ne_none_iff_exists'.mp (mt unwrap?_eq_none_iff.mp single)
    rw [unwraps, (describes_of_unwrap? unwraps).unique describes]

end TypeRef

namespace SchemaDraft

variable {reference : TypeRef}

theorem shape_eq_ok_iff {found : TypeShape} :
    shape reference = .ok found ↔ reference.unwrap? = some found := by
  rw [shape]
  cases reference.unwrap? with
  | some other => simp
  | none => simp

theorem shape_eq_error_iff {error : Error} :
    shape reference = .error error ↔ error = .doubleNonNull ∧ reference.unwrap? = none := by
  rw [shape]
  cases reference.unwrap? with
  | some other => simp
  | none => simp [eq_comm]

/-- A reference is refused, as a flaw of the schema, exactly where a mark stands on a mark. Any
other reference comes down to the one shape that describes it. -/
theorem shape_settles (reference : TypeRef) :
    (∀ error, shape reference = .error error ↔
      error = .doubleNonNull ∧ error.category = .schema ∧ reference.HasDoubleMark) ∧
    ∀ found, shape reference = .ok found ↔
      ¬reference.HasDoubleMark ∧ found.Describes reference := by
  refine ⟨fun error => ?_, fun found => shape_eq_ok_iff.trans TypeRef.unwrap?_eq_some_iff⟩
  rw [shape_eq_error_iff, TypeRef.unwrap?_eq_none_iff]
  constructor
  · rintro ⟨rfl, double⟩
    exact ⟨rfl, rfl, double⟩
  · rintro ⟨isRefusal, _, double⟩
    exact ⟨isRefusal, double⟩

/-- A mark behind a list is taken off, a second one there is not. -/
example : shape (.nonNull (.list (.list (.nonNull (.named "ID"))))) = .ok ⟨"ID", true, false⟩ ∧
    shape (.list (.nonNull (.nonNull (.named "ID")))) = .error .doubleNonNull := ⟨rfl, rfl⟩

end SchemaDraft

end ChainedSdk
