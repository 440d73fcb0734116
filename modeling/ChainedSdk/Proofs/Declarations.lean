import ChainedSdk.Proofs.Grammar
import ChainedSdk.Schema.Build
/-!
# What a schema declares

The types of a schema, told without a draft: every name has its last definition, extended by
whatever extends the name anywhere. A built-in scalar is there from the start, so what extends it
before it is defined anew goes with what it was.
-/

namespace ChainedSdk

namespace Definition

def type? : Definition → Option TypeDefinition
  | .type definition => some definition
  | _ => none

/-- The type extension that a definition is, if it adds anything. -/
def extension? : Definition → Option TypeExtension
  | .typeExtension { body := .scalar, .. } => none
  | .typeExtension extension => some extension
  | _ => none

def roots : Definition → List RootOperation
  | .schema block | .schemaExtension block => block.roots
  | _ => []

def defines (definition : Definition) (name : String) : Bool :=
  definition.type?.any fun type => type.name = name

end Definition

namespace Declared

def types (definitions : List Definition) : List TypeDefinition := definitions.filterMap (·.type?)

/-- The names that are defined, but for the built-in ones, in the order of their definitions. -/
def newNames (definitions : List Definition) : List String :=
  ((types definitions).map (·.name)).filter fun name => !isBuiltinScalar name

def names (definitions : List Definition) : List String :=
  builtinScalars.map Prod.fst ++ newNames definitions

def extensions (name : String) (definitions : List Definition) : List TypeExtension :=
  (definitions.filterMap (·.extension?)).filter fun extension => extension.name = name

/-- The definitions that follow the last one of a name. -/
def since (name : String) (definitions : List Definition) : List Definition :=
  (definitions.reverse.takeWhile fun definition => !definition.defines name).reverse

/-- The extensions that a finished type has. -/
def counted (name : String) (definitions : List Definition) : List TypeExtension :=
  -- What extends a built-in scalar is folded in at once, and is lost when the scalar is defined.
  extensions name (if isBuiltinScalar name then since name definitions else definitions)

def scalar (scalars : ScalarTypes) (name : String) : TypeDescriptor :=
  { name, kind := .scalar, target? := some (scalars.resolve name) }

/-- The type of a name before it is extended. -/
def base (scalars : ScalarTypes) (definitions : List Definition) (name : String) :
    Except Error TypeDescriptor :=
  match (types definitions).reverse.find? fun type => type.name = name with
  | some definition => SchemaDraft.describe scalars definition
  | none => .ok (scalar scalars name)

/-- The type of a name with everything that extends it. -/
def finished (scalars : ScalarTypes) (definitions : List Definition) (name : String) :
    Except Error TypeDescriptor :=
  base scalars definitions name >>= (counted name definitions).foldlM SchemaDraft.extend

/-- The root type that is named last for a kind. -/
def root? (definitions : List Definition) (kind : OperationKind) : Option String :=
  ((definitions.flatMap (·.roots)).reverse.find? fun root => root.kind = kind).map (·.type)

variable {scalars : ScalarTypes} {definitions : List Definition} {definition : Definition}
  {type : TypeDefinition} {name : String}

/-! ## One definition more -/

theorem types_append (first second : List Definition) :
    types (first ++ second) = types first ++ types second := List.filterMap_append

theorem extensions_append (name : String) (first second : List Definition) :
    extensions name (first ++ second) = extensions name first ++ extensions name second := by
  rw [extensions, List.filterMap_append, List.filter_append]
  rfl

theorem extensions_of_extension? {extension : TypeExtension}
    (isExtension : definition.extension? = some extension) (name : String) :
    extensions name [definition] = if extension.name = name then [extension] else [] := by
  rw [extensions, List.filterMap_cons_some isExtension, List.filterMap_nil, List.filter_cons,
    List.filter_nil]
  simp

theorem extensions_of_none (nothing : definition.extension? = none) (name : String) :
    extensions name [definition] = [] := by
  rw [extensions, List.filterMap_cons_none nothing]
  rfl

theorem extensions_append_ne_nil {first : List Definition} (some_ : extensions name first ≠ [])
    (second : List Definition) : extensions name (first ++ second) ≠ [] := by
  rw [extensions_append]
  exact fun none_ => some_ (List.append_eq_nil_iff.mp none_).1

theorem newNames_snoc_type (definitions : List Definition) (type : TypeDefinition) :
    newNames (definitions ++ [.type type]) =
      newNames definitions ++ if isBuiltinScalar type.name then [] else [type.name] := by
  rw [newNames, types_append, List.map_append, List.filter_append]
  cases builtin : isBuiltinScalar type.name with
  | true => simp [newNames, types, Definition.type?, builtin]
  | false => simp [newNames, types, Definition.type?, builtin]

theorem names_snoc_type (definitions : List Definition) (type : TypeDefinition) :
    names (definitions ++ [.type type]) =
      names definitions ++ if isBuiltinScalar type.name then [] else [type.name] := by
  rw [names, newNames_snoc_type, ← List.append_assoc]
  rfl

theorem types_snoc_other (definitions : List Definition) (other : definition.type? = none) :
    types (definitions ++ [definition]) = types definitions := by
  simp [types, other]

theorem names_snoc_other (definitions : List Definition) (other : definition.type? = none) :
    names (definitions ++ [definition]) = names definitions := by
  rw [names, newNames, types_snoc_other definitions other]
  rfl

theorem isBuiltinScalar_iff : isBuiltinScalar name = true ↔ name ∈ builtinScalars.map Prod.fst := by
  rw [isBuiltinScalar, List.lookup_isSome_iff]
  constructor
  · rintro ⟨entry, member, same⟩
    exact eq_of_beq same ▸ List.mem_map_of_mem member
  · intro member
    obtain ⟨entry, isEntry, rfl⟩ := List.mem_map.mp member
    exact ⟨entry, isEntry, beq_self_eq_true _⟩

theorem mem_names_of_builtin (builtin : isBuiltinScalar name = true) : name ∈ names definitions :=
  List.mem_append_left _ (isBuiltinScalar_iff.mp builtin)

theorem mem_names_snoc_type {other : String} :
    other ∈ names (definitions ++ [.type type]) ↔
      other ∈ names definitions ∨ other = type.name := by
  rw [names_snoc_type, List.mem_append]
  cases builtin : isBuiltinScalar type.name with
  | true =>
    have known : other = type.name → other ∈ names definitions := by
      rintro rfl
      exact mem_names_of_builtin builtin
    rw [or_iff_left_of_imp known, if_pos rfl, or_iff_left List.not_mem_nil]
  | false => rw [if_neg Bool.false_ne_true, List.mem_singleton]

theorem base_snoc_type (scalars : ScalarTypes) (definitions : List Definition)
    (type : TypeDefinition) (name : String) :
    base scalars (definitions ++ [.type type]) name =
      if type.name = name then SchemaDraft.describe scalars type
      else base scalars definitions name := by
  have last :
      (types (definitions ++ [.type type])).reverse = type :: (types definitions).reverse := by
    rw [types_append, List.reverse_append]
    rfl
  rw [base, last, List.find?_cons]
  by_cases same : type.name = name
  · rw [decide_eq_true same, if_pos same]
  · rw [decide_eq_false same, if_neg same, base]

theorem base_snoc_other (scalars : ScalarTypes) (definitions : List Definition)
    (other : definition.type? = none) (name : String) :
    base scalars (definitions ++ [definition]) name = base scalars definitions name := by
  rw [base, types_snoc_other definitions other, base]

theorem since_snoc_of_defines (definitions : List Definition)
    (defines : definition.defines name = true) : since name (definitions ++ [definition]) = [] := by
  rw [since, List.reverse_append, List.reverse_singleton, List.singleton_append,
    List.takeWhile_cons_of_neg (by simp [defines])]
  rfl

theorem since_snoc_of_not_defines (definitions : List Definition)
    (passes : definition.defines name = false) :
    since name (definitions ++ [definition]) = since name definitions ++ [definition] := by
  rw [since, List.reverse_append, List.reverse_singleton, List.singleton_append,
    List.takeWhile_cons_of_pos (by simp [passes]), List.reverse_cons, since]

theorem counted_snoc_of_not_defines (definitions : List Definition)
    (passes : definition.defines name = false) :
    counted name (definitions ++ [definition]) =
      counted name definitions ++ extensions name [definition] := by
  unfold counted
  split
  · rw [since_snoc_of_not_defines definitions passes, extensions_append]
  · rw [extensions_append]

/-- A definition starts its type anew, with the extensions that wait for it. -/
theorem finished_snoc_type (scalars : ScalarTypes) (definitions : List Definition)
    (type : TypeDefinition) (name : String) :
    finished scalars (definitions ++ [.type type]) name =
      if type.name = name then SchemaDraft.describe scalars type >>=
        (if isBuiltinScalar name then [] else extensions name definitions).foldlM SchemaDraft.extend
      else finished scalars definitions name := by
  rw [finished, base_snoc_type]
  by_cases same : type.name = name
  · have defines : (Definition.type type).defines name = true := decide_eq_true same
    rw [if_pos same, if_pos same, counted]
    cases isBuiltinScalar name with
    | true =>
      rw [if_pos rfl, if_pos rfl, since_snoc_of_defines definitions defines]
      rfl
    | false =>
      rw [if_neg Bool.false_ne_true, if_neg Bool.false_ne_true, extensions_append]
      exact congrArg (fun waiting => _ >>= fun described =>
        List.foldlM SchemaDraft.extend described waiting) (List.append_nil _)
  · have passes : (Definition.type type).defines name = false := decide_eq_false same
    rw [if_neg same, if_neg same, counted_snoc_of_not_defines definitions passes, finished]
    exact congrArg (fun waiting => _ >>= fun described =>
      List.foldlM SchemaDraft.extend described waiting) (List.append_nil _)

/-- Any other definition goes on with the type as far as it is. -/
theorem finished_snoc_other (scalars : ScalarTypes) (definitions : List Definition)
    (other : definition.type? = none) (name : String) :
    finished scalars (definitions ++ [definition]) name =
      finished scalars definitions name >>=
        (extensions name [definition]).foldlM SchemaDraft.extend := by
  have passes : definition.defines name = false := by rw [Definition.defines, other]; rfl
  rw [finished, base_snoc_other scalars definitions other,
    counted_snoc_of_not_defines definitions passes, finished, bind_assoc]
  refine congrArg (_ >>= ·) (funext fun described => ?_)
  exact List.foldlM_append

end Declared

/-- The fields of a body have types that come down to a name and two flags. -/
def TypeBody.Shaped (body : TypeBody) : Prop := ∀ type ∈ body.fieldTypes, type.unwrap? ≠ none

def Definition.Shaped (definition : Definition) : Prop :=
  (∀ type, definition.type? = some type → type.body.Shaped) ∧
    ∀ extension, definition.extension? = some extension → extension.body.Shaped

theorem TypeBody.SingleMarks.shaped {body : TypeBody} (single : body.SingleMarks) : body.Shaped :=
  fun type member => TypeRef.unwrap?_ne_none (single type member)

theorem Definition.SingleMarks.shaped {definition : Definition} (single : definition.SingleMarks) :
    definition.Shaped := by
  cases definition with
  | type type =>
    refine ⟨fun found same => ?_, by simp [extension?]⟩
    cases same
    exact TypeBody.SingleMarks.shaped single
  | typeExtension extension =>
    refine ⟨by simp [type?], fun found same => ?_⟩
    unfold extension? at same
    split at same
    · cases same
    · next isExtension =>
      cases isExtension
      cases same
      exact TypeBody.SingleMarks.shaped single
    · cases same
  | _ => exact ⟨by simp [type?], by simp [extension?]⟩

end ChainedSdk
