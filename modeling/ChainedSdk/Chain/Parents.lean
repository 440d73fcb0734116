import ChainedSdk.Chain.Candidate
/-!
# Choosing parents

Operations choose their parents one after the other, each the best candidate that does not stand
below it already. So at no time does an operation stand below itself.
-/

namespace ChainedSdk

/-- The parents chosen so far; an operation without one is a root. -/
abbrev Parents := Table String

namespace Parents

/-- The operations met on the way up from a start, which is the first of them, in at most `steps`
steps. -/
def upward (parents : Parents) : (steps : Nat) → String → List String
  | 0, start => [start]
  | steps + 1, start =>
    match parents.get? start with
    | none => [start]
    | some parent => start :: upward parents steps parent

/-- An operation and everything above it. A way up that meets nothing twice has no more steps than
there are parents. -/
def lineage (parents : Parents) (start : String) : List String := upward parents parents.size start

/-- Parents are acyclic when some rank grows on every step down. -/
def Acyclic (parents : Parents) : Prop :=
  ∃ rank : String → Nat, ∀ child parent, parents.get? child = some parent → rank parent < rank child

end Parents

/-- How an operation has chosen: the candidates passed over because they stand below it, and the one
taken. -/
structure ParentChoice where
  operation : String
  skipped : List String
  parent? : Option String
deriving DecidableEq, Repr

namespace ParentChoice

/-- Whether an operation would stand below itself under a candidate. -/
def closesCycle (parents : Parents) (operation : String) (candidate : Candidate) : Bool :=
  (parents.lineage candidate.parent).contains operation

def choose (parents : Parents) (operation : String) (candidates : List Candidate) :
    ParentChoice where
  operation := operation
  skipped := (candidates.takeWhile (closesCycle parents operation)).map (·.parent)
  parent? := (candidates.dropWhile (closesCycle parents operation)).head?.map (·.parent)

def record (parents : Parents) (choice : ParentChoice) : Parents :=
  match choice.parent? with
  | some parent => parents.insert choice.operation parent
  | none => parents

/-- The choices of some operations in order, after the parents chosen before. -/
def chooseAll (candidates : Candidates) (parents : Parents) :
    List Operation → List ParentChoice × Parents
  | [] => ([], parents)
  | operation :: rest =>
    let choice := choose parents operation.name ((candidates.get? operation.name).getD [])
    let (choices, parents) := chooseAll candidates (record parents choice) rest
    (choice :: choices, parents)

end ParentChoice

def Parents.ofCandidates (candidates : Candidates) (operations : List Operation) : Parents :=
  (ParentChoice.chooseAll candidates ∅ operations).2

end ChainedSdk
