import ChainedSdk.Config.Basic
import ChainedSdk.Error
import ChainedSdk.Schema.Type
/-!
# The context of a run

What every stage after the first looks things up in: the types of the schema, the fragments of the
documents, the root types and the configuration.
-/

namespace ChainedSdk

/-- The look-up tables of a run. -/
structure Context where
  types : Table TypeDescriptor
  fragments : Table FragmentDefinition
  rootTypes : List (OperationKind × String)
  config : Config

namespace Context

def type? (context : Context) (name : String) : Option TypeDescriptor := context.types.get? name

def rootType? (context : Context) (kind : OperationKind) : Option TypeDescriptor :=
  (context.rootTypes.lookup kind).bind context.type?

/-- The type with a name, which something in `source` refers to. -/
def requireType (context : Context) (name source : String) : Except Error TypeDescriptor :=
  match context.type? name with
  | some type => .ok type
  | none => .error (.unresolved source (.type name))

end Context

end ChainedSdk
