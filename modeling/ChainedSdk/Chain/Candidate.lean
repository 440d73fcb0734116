import ChainedSdk.Chain.Inherit
import ChainedSdk.Names
/-!
# Candidates

A candidate is an operation under whose result another one can be called. The candidates of an
operation are ranked: the one whose result supplies more of its variables comes first, and of two
that supply as many the one declared first.
-/

namespace ChainedSdk

/-- A possible parent with the variables that its result supplies. -/
structure Candidate where
  parent : String
  supplied : List Inherited
  index : Nat
deriving DecidableEq, Repr, Inhabited

/-- The candidates of operations under their names, best first. -/
abbrev Candidates := Table (List Candidate)

namespace Candidate

/-- Whether a candidate ranks before another or level with it. -/
def ranksBefore (first second : Candidate) : Bool :=
  second.supplied.length < first.supplied.length ||
    (first.supplied.length = second.supplied.length && first.index ≤ second.index)

/-- The required identifying variables that a model supplies. In identifying mode it has to supply
all of them. -/
def suppliedBy? (config : Config) (model : Model) : List Variable → Option (List Inherited)
  | [] => some []
  | input :: rest =>
    match model.supply? config 0 input with
    | some found => (suppliedBy? config model rest).map (found :: ·)
    | none =>
      if config.chainMatch = .identifying then none else suppliedBy? config model rest

/-- The result model under which operations can be chained: that of a single result. -/
def parentModel? (models : Table Model) (parent : Operation) : Option Model :=
  if parent.isList then none else parent.resultModel? models

/-- The variables of an operation that another one supplies. Nothing supplied means that the other
one cannot be its parent. -/
def suppliedUnder (config : Config) (models : Table Model) (child parent : Operation) :
    List Inherited :=
  if parent.name = child.name || parent.kind ≠ child.kind then []
  else match parentModel? models parent with
    | none => []
    | some model =>
      if config.requireNamePrefix && !Names.isExtension child.name parent.name then []
      else (suppliedBy? config model (child.required.filter (·.isIdentifying))).getD []

def ranked (config : Config) (models : Table Model) (operations : List Operation)
    (child : Operation) : List Candidate :=
  let candidates := operations.filterMap fun parent =>
    match suppliedUnder config models child parent with
    | [] => none
    | found => some ⟨parent.name, found, parent.index⟩
  candidates.mergeSort ranksBefore

def ofOperations (config : Config) (models : Table Model) (operations : List Operation) :
    Candidates :=
  Table.ofList (operations.map fun child => (child.name, ranked config models operations child))

end Candidate

end ChainedSdk
