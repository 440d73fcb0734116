/-!
# Type references

The type that a field or a variable is declared with: a name, a list of references, or a reference
marked as never null. `unwrap?` reads off what later stages need, the innermost name and two flags.
-/

namespace ChainedSdk

/-- A type reference, in any nesting. -/
inductive TypeRef where
  | named (name : String)
  | list (item : TypeRef)
  | nonNull (inner : TypeRef)
deriving DecidableEq, Repr, Inhabited

/-- What a type reference comes down to. Lists of any depth count as one list, and only the
outermost mark decides whether the value may be missing. -/
structure TypeShape where
  name : String
  isList : Bool
  isOptional : Bool
deriving DecidableEq, Repr, Inhabited

namespace TypeRef

def text : TypeRef → String
  | named name => name
  | list item => "[" ++ item.text ++ "]"
  | nonNull inner => inner.text ++ "!"

/-- The innermost name and whether a list occurs, for a reference whose own mark is taken off. A
mark directly inside a list is taken off as well; any other mark is one too many. -/
def innermost? (isList : Bool) : TypeRef → Option (String × Bool)
  | named name => some (name, isList)
  | list (nonNull item) => innermost? true item
  | list item => innermost? true item
  | nonNull _ => none

/-- The shape of a reference, or nothing where a mark directly wraps a mark. -/
def unwrap? : TypeRef → Option TypeShape
  | nonNull inner => (innermost? false inner).map fun found => ⟨found.1, found.2, false⟩
  | reference => (innermost? false reference).map fun found => ⟨found.1, found.2, true⟩

end TypeRef

end ChainedSdk
