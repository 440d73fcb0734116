import ChainedSdk.Config.Basic
import ChainedSdk.Error
import ChainedSdk.Names
/-!
# Method names

Siblings get distinct method names. Each has a natural name; the first sibling with a natural name
that is not reserved keeps it, and every other one gets its natural name with the least number from
2 on that is still free.
-/

namespace ChainedSdk.MethodName

/-- What a sibling has after the natural names are given out: its own, or one that is already
owned. -/
inductive Slot where
  | natural (name : String)
  | taken (name owner : String)
deriving DecidableEq, Repr

def natural (parent? : Option String) (operation : String) : String :=
  Names.chainMethod operation parent?

/-- Gives out the natural names in order, each to its first sibling. -/
def giveNatural (parent? : Option String) (owners : Table String) :
    List String → List Slot × Table String
  | [] => ([], owners)
  | operation :: rest =>
    let name := natural parent? operation
    match owners.get? name with
    | some owner =>
      let (slots, owners) := giveNatural parent? owners rest
      (.taken name owner :: slots, owners)
    | none =>
      let (slots, owners) := giveNatural parent? (owners.insert name operation) rest
      (.natural name :: slots, owners)

def numbered (name : String) (number : Nat) : String := name ++ toString number

def isTooLong (config : Config) (name : String) : Bool :=
  config.maxMethodNameLength?.any fun limit => limit < name.length

/-- The first free numbered name in `tries` numbers from `number` on. A name that is too long ends
the search, because the following ones are no shorter. -/
def firstFree? (config : Config) (owners : Table String) (name : String) :
    (number tries : Nat) → Option String
  | _, 0 => none
  | number, tries + 1 =>
    if isTooLong config (numbered name number) then none
    else if owners.contains (numbered name number) then
      firstFree? config owners name (number + 1) tries
    else some (numbered name number)

/-- Gives numbered names to the siblings that have no name yet, in order. -/
def giveNumbered (config : Config) (parent? : Option String) (owners : Table String) :
    List (String × Slot) → Except Error (List String)
  | [] => .ok []
  | (_, .natural name) :: rest => do
    return name :: (← giveNumbered config parent? owners rest)
  | (operation, .taken name owner) :: rest =>
    match firstFree? config owners name 2 (config.disambiguationLimit - 1) with
    | none => .error (.methodConflict name owner operation parent?)
    | some free => do
      return free :: (← giveNumbered config parent? (owners.insert free operation) rest)

/-- The method names of some siblings, in order. `reserved` holds the names that are taken before,
with their owners. -/
def assign (config : Config) (parent? : Option String) (reserved : Table String)
    (operations : List String) : Except Error (List String) :=
  let (slots, owners) := giveNatural parent? reserved operations
  giveNumbered config parent? owners (operations.zip slots)

end ChainedSdk.MethodName
