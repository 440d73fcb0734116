import ChainedSdk.Files.Sources
import ChainedSdk.Proofs.Outcomes
import ChainedSdk.Proofs.TypeShapes
/-!
# What a text can declare

A mark of non-null never stands on another one in a text that is read. So the type of every variable
and of every field that is declared in a text comes down to a name and two flags.
-/

namespace ChainedSdk

namespace TypeRef

/-- No mark stands on a mark. -/
def SingleMarks : TypeRef → Prop
  | named _ => True
  | list item => item.SingleMarks
  | nonNull (nonNull _) => False
  | nonNull inner => inner.SingleMarks

theorem singleMarks_iff {reference : TypeRef} :
    reference.SingleMarks ↔ ¬reference.HasDoubleMark := by
  fun_induction SingleMarks reference with
  | case1 name => exact iff_of_true trivial (mt .inr (not_isBlocked_named name))
  | case2 item ih => rw [ih, hasDoubleMark_list]
  | case3 inner =>
    exact iff_of_false not_false (not_not_intro (hasDoubleMark_nonNull.mpr (.inl ⟨inner, rfl⟩)))
  | case4 inner unmarked ih =>
    have front : ¬inner.IsMarked := fun ⟨deeper, isMark⟩ => unmarked deeper isMark
    rw [ih, hasDoubleMark_nonNull, IsBlocked, or_iff_right front]

theorem unwrap?_ne_none {reference : TypeRef} (single : reference.SingleMarks) :
    reference.unwrap? ≠ none :=
  mt unwrap?_eq_none_iff.mp (singleMarks_iff.mp single)

end TypeRef

namespace GraphQL

/-- Whatever a parser reads has a property. -/
def Parser.Yields {α : Type} (parser : Parser α) (holds : α → Prop) : Prop :=
  ∀ tokens result rest, parser.run tokens = some (result, rest) → holds result

namespace Parser.Yields

variable {α β : Type} {first : Parser α} {next : α → Parser β} {holds : β → Prop}
  {before : α → Prop}

theorem pure {value : β} (holdsValue : holds value) : Yields (Pure.pure value) holds := by
  intro tokens result rest read
  cases read
  exact holdsValue

theorem failure : Yields (Alternative.failure : Parser β) holds := by
  intro tokens result rest read
  cases read

theorem bind (atFirst : Yields first before)
    (later : ∀ value, before value → Yields (next value) holds) :
    Yields (first >>= next) holds := by
  intro tokens result rest read
  rw [StateT.run_bind] at read
  obtain ⟨⟨value, between⟩, readFirst, readNext⟩ := Option.bind_eq_some_iff.mp read
  exact later value (atFirst _ _ _ readFirst) _ _ _ readNext

theorem afterAny (later : ∀ value, Yields (next value) holds) : Yields (first >>= next) holds := by
  have anything : Yields first fun _ => True := fun _ _ _ _ => trivial
  exact anything.bind fun value _ => later value

theorem untilToken {closing : Token} {item : Parser α} (each : Yields item before) (fuel : Nat) :
    Yields (Parser.untilToken closing item fuel) fun items => ∀ value ∈ items, before value := by
  induction fuel with
  | zero => exact failure
  | succ fuel ih =>
    refine afterAny fun closed => ?_
    split
    · exact pure fun _ impossible => nomatch impossible
    · refine each.bind fun value isValue => ih.bind fun values areValues => pure ?_
      exact List.forall_mem_cons.mpr ⟨isValue, areValues⟩

theorem optionalBetween {opening closing : Token} {item : Parser α} (each : Yields item before) :
    Yields (Parser.optionalBetween opening closing item) fun items =>
      ∀ value ∈ items, before value := by
  refine afterAny fun token => ?_
  split
  · refine afterAny fun _ => each.bind fun value isValue => afterAny fun left => ?_
    refine (each.untilToken _).bind fun values areValues => pure ?_
    exact List.forall_mem_cons.mpr ⟨isValue, areValues⟩
  · exact pure fun _ impossible => nomatch impossible

end Parser.Yields

open GraphQL.Parser (Yields)

/-- A mark may follow a reference that has none. -/
private theorem yields_marked {reference : TypeRef} (single : reference.SingleMarks)
    (unmarked : ∀ inner, reference ≠ .nonNull inner) :
    Yields (do if ← Parser.accept (.mark '!') then return .nonNull reference else return reference)
      TypeRef.SingleMarks := by
  refine .afterAny fun marked => ?_
  split
  · refine .pure ?_
    cases reference with
    | nonNull inner => exact absurd rfl (unmarked inner)
    | named name => exact single
    | list inner => exact single
  · exact .pure single

theorem yields_typeReferenceAround {item : Parser TypeRef}
    (each : Yields item TypeRef.SingleMarks) :
    Yields (typeReferenceAround item) TypeRef.SingleMarks := by
  refine .afterAny fun opened => ?_
  dsimp only
  split
  · refine each.bind fun inner single => .afterAny fun _ => ?_
    rw [pure_bind]
    exact yields_marked single fun _ impossible => nomatch impossible
  · refine .afterAny fun called => ?_
    rw [pure_bind]
    exact yields_marked trivial fun _ impossible => nomatch impossible

theorem yields_typeReferenceWithin (depth : Nat) :
    Yields (typeReferenceWithin depth) TypeRef.SingleMarks := by
  induction depth with
  | zero => exact yields_typeReferenceAround .failure
  | succ depth ih => exact yields_typeReferenceAround ih

theorem yields_variableDefinition :
    Yields variableDefinition fun definition => definition.type.SingleMarks := by
  refine .afterAny fun _ => .afterAny fun _ => .afterAny fun _ => .afterAny fun _ => ?_
  refine (yields_typeReferenceWithin nestingLimit).bind fun type single => ?_
  exact .afterAny fun _ => .afterAny fun _ => .pure single

end GraphQL

/-- The variables of an operation are declared with types that put no mark on a mark. -/
def OperationDefinition.SingleMarks (operation : OperationDefinition) : Prop :=
  ∀ definition ∈ operation.variableDefinitions, definition.type.SingleMarks

/-- The types that the fields of a body are declared with. -/
def TypeBody.fieldTypes : TypeBody → List TypeRef
  | .object _ fields | .interface _ fields => fields.map (·.type)
  | .input fields => fields.map (·.type)
  | _ => []

/-- The fields of a body are declared with types that put no mark on a mark. -/
def TypeBody.SingleMarks (body : TypeBody) : Prop := ∀ type ∈ body.fieldTypes, type.SingleMarks

def Definition.SingleMarks : Definition → Prop
  | .operation definition => definition.SingleMarks
  | .type definition => definition.body.SingleMarks
  | .typeExtension extension => extension.body.SingleMarks
  | _ => True

namespace GraphQL

open GraphQL.Parser (Yields)

theorem yields_operationDefinition (described : Option String) :
    Yields (operationDefinition described) OperationDefinition.SingleMarks := by
  refine .afterAny fun token => ?_
  split
  · exact .afterAny fun _ => .pure fun _ impossible => nomatch impossible
  · refine .afterAny fun kind => .afterAny fun token => ?_
    have named (name? : Option String) : Yields
        (do let definitions ←
              Parser.optionalBetween openParen closeParen variableDefinition
            let applied ← directives false nestingLimit
            return ⟨described, kind, name?, definitions, applied, ← selectionBlock⟩)
        OperationDefinition.SingleMarks := by
      refine yields_variableDefinition.optionalBetween.bind fun definitions single => ?_
      exact .afterAny fun _ => .afterAny fun _ => .pure single
    dsimp only
    split
    · exact .afterAny fun _ => .afterAny fun name? => named name?
    · exact .afterAny fun name? => named name?

theorem yields_inputValueDefinition :
    Yields inputValueDefinition fun definition => definition.type.SingleMarks := by
  refine .afterAny fun _ => .afterAny fun _ => .afterAny fun _ => ?_
  refine (yields_typeReferenceWithin nestingLimit).bind fun type single => ?_
  exact .afterAny fun _ => .afterAny fun _ => .pure single

theorem yields_fieldDefinition :
    Yields fieldDefinition fun definition => definition.type.SingleMarks := by
  refine .afterAny fun _ => .afterAny fun _ => .afterAny fun _ => .afterAny fun _ => ?_
  refine (yields_typeReferenceWithin nestingLimit).bind fun type single => ?_
  exact .afterAny fun _ => .pure single

theorem yields_typeRest (keyword : String) :
    Yields (typeRest keyword) fun rest => rest.2.2.SingleMarks := by
  have declared {α : Type} {type : α → TypeRef} {fields : List α}
      (single : ∀ field ∈ fields, (type field).SingleMarks) :
      ∀ reference ∈ fields.map type, reference.SingleMarks := List.forall_mem_map.mpr single
  have nothing : ∀ reference ∈ ([] : List TypeRef), reference.SingleMarks :=
    fun _ impossible => nomatch impossible
  refine .afterAny fun called => ?_
  split
  · exact .afterAny fun _ => .pure nothing
  · refine .afterAny fun _ => .afterAny fun _ => ?_
    exact yields_fieldDefinition.optionalBetween.bind fun _ single => .pure (declared single)
  · refine .afterAny fun _ => .afterAny fun _ => ?_
    exact yields_fieldDefinition.optionalBetween.bind fun _ single => .pure (declared single)
  · refine .afterAny fun _ => .afterAny fun marked => ?_
    dsimp only
    split
    · exact .afterAny fun _ => .pure nothing
    · exact .afterAny fun _ => .pure nothing
  · exact .afterAny fun _ => .afterAny fun _ => .pure nothing
  · refine .afterAny fun _ => ?_
    exact yields_inputValueDefinition.optionalBetween.bind fun _ single => .pure (declared single)
  · exact .failure

theorem yields_extensionRest : Yields extensionRest Definition.SingleMarks := by
  refine .afterAny fun word => ?_
  split
  · refine .afterAny fun applied => .afterAny fun roots => ?_
    split
    · exact .afterAny fun _ => .pure trivial
    · exact .pure trivial
  · refine .afterAny fun _ => .afterAny fun _ => .afterAny fun applied => ?_
    split
    · exact .afterAny fun _ => .pure trivial
    · exact .pure trivial
  · refine (yields_typeRest _).bind fun rest single => ?_
    dsimp only
    split
    · exact .afterAny fun _ => .pure single
    · exact .pure single

theorem yields_definition : Yields definition Definition.SingleMarks := by
  refine .afterAny fun described => .afterAny fun token => ?_
  split
  · split
    · exact .afterAny fun _ => .afterAny fun _ => .afterAny fun _ => .pure trivial
    · split
      · exact .afterAny fun _ => .afterAny fun _ => .pure trivial
      · split
        · refine .afterAny fun _ => (yields_typeRest _).bind fun rest single => ?_
          exact .pure single
        · split
          · exact .afterAny fun _ => .pure trivial
          · split
            · split
              · exact .afterAny fun _ => .afterAny fun _ => yields_extensionRest
              · exact .afterAny fun _ => yields_extensionRest
            · exact (yields_operationDefinition described).bind fun _ single => .pure single
  · split
    · exact .failure
    · exact (yields_operationDefinition none).bind fun _ single => .pure single

theorem yields_definitionsToEnd (fuel : Nat) :
    Yields (definitionsToEnd fuel) fun definitions =>
      ∀ definition ∈ definitions, definition.SingleMarks := by
  induction fuel with
  | zero => exact .failure
  | succ fuel ih =>
    refine .afterAny fun left => ?_
    split
    · exact .pure fun _ impossible => nomatch impossible
    · refine yields_definition.bind fun first single => ih.bind fun others singles => .pure ?_
      exact List.forall_mem_cons.mpr ⟨single, singles⟩

theorem yields_document :
    Yields
      (do let first ← definition
          return Document.mk (first :: (← definitionsToEnd ((← Parser.remaining) + 1))))
      fun document => ∀ definition ∈ document.definitions, definition.SingleMarks := by
  refine yields_definition.bind fun first single => .afterAny fun left => ?_
  refine (yields_definitionsToEnd _).bind fun others singles => .pure ?_
  exact List.forall_mem_cons.mpr ⟨single, singles⟩

theorem yields_of_parseAll? {α : Type} {parser : Parser α} {holds : α → Prop}
    (yields : Yields parser holds) {text : String} {result : α}
    (read : parseAll? parser text = some result) : holds result := by
  obtain ⟨tokens, _, parsed⟩ := Option.bind_eq_some_iff.mp read
  split at parsed
  · next run =>
    cases parsed
    exact yields _ _ _ run
  · cases parsed

end GraphQL

/-- The definitions of a text put no mark on a mark. -/
theorem Document.singleMarks_of_mem {text : String} {document : Document}
    (read : Document.ofText text = .ok document) {definition : Definition}
    (member : definition ∈ document.definitions) : definition.SingleMarks := by
  unfold Document.ofText at read
  split at read
  · next parsed =>
    cases read
    exact GraphQL.yields_of_parseAll? GraphQL.yields_document parsed definition member
  · cases read

theorem Document.singleMarks_ofText {text : String} {document : Document}
    (read : Document.ofText text = .ok document) :
    ∀ operation ∈ document.operations, operation.SingleMarks := by
  intro operation member
  obtain ⟨definition, isDefinition, isOperation⟩ := List.mem_filterMap.mp member
  have single := Document.singleMarks_of_mem read isDefinition
  split at isOperation
  · cases isOperation
    exact single
  · cases isOperation

end ChainedSdk
