import ChainedSdk.Selection.Collect
/-!
# Inlining fragments

The meaning of a selection set with fragments: the sequence of fields that stands there once every
spread is replaced by the selections of its fragment and every inline fragment by its own, each
field with the type of the innermost enclosing condition. Nothing is merged and nothing is
remembered.
-/

namespace ChainedSdk.Context

mutual

/-- The selected fields in order, each under its response key, with all fragments in place. -/
def inlined (context : Context) (source : String) (trail : List String)
    (owner : TypeDescriptor) : List Selection → Except Error (List (String × Pick))
  | [] => return []
  | .field head selections? :: rest => do
    return (head.key, { head, selections?, owner }) :: (← context.inlined source trail owner rest)
  | .inlineFragment condition? _ selections :: rest => do
    let innerOwner ← match condition? with
      | none => pure owner
      | some condition => context.requireType condition source
    let inner ← context.inlined source trail innerOwner selections
    return inner ++ (← context.inlined source trail owner rest)
  | .spread name _ :: rest => do
    let inner ← context.inlinedFragment source trail name
    return inner ++ (← context.inlined source trail owner rest)
termination_by selections => ((context.untrodden trail).length, sizeOf selections)

/-- The selected fields of a fragment in order. -/
def inlinedFragment (context : Context) (source : String) (trail : List String)
    (name : String) : Except Error (List (String × Pick)) :=
  if _onTrail : name ∈ trail then .error (.fragmentCycle trail name)
  else match _found : context.fragments.get? name with
    | none => .error (.unresolved source (.fragment name))
    | some fragment => do
      let owner ← context.requireType fragment.typeCondition source
      context.inlined source (trail ++ [name]) owner fragment.selections
termination_by ((context.untrodden trail).length, 0)
decreasing_by
  exact Prod.Lex.left _ _ (context.length_untrodden_lt (by simp [_found]) _onTrail)

end

end ChainedSdk.Context
