import ChainedSdk.Error
import ChainedSdk.Json.Basic
/-!
# Reports

Stages report what they do as a list of records. A stage that can fail gives its records together
with its outcome, so that what was reported before a failure is not lost. `outcome_bind` says that
the outcome of stages in sequence does not depend on what they report.
-/

namespace ChainedSdk

/-- How much a record matters; greater is worse. -/
abbrev Level := Int

namespace Level

/-- For whoever looks for a fault. -/
def debug : Level := 10

/-- Ordinary progress. -/
def info : Level := 20

/-- Something that may not be meant. -/
def warning : Level := 30

/-- The failure of a run. -/
def critical : Level := 50

end Level

namespace Stage

/-- The stage that reads the schema and finds the fragments. -/
def context : String := "context"

/-- The stage that extracts models. -/
def models : String := "models"

/-- The stages that turn operations into a forest. -/
def chain : String := "chain"

/-- The run as a whole, and the printing of the SDK. -/
def plugin : String := "plugin"

end Stage

/-- One report of a stage. -/
structure Record where
  level : Level
  stage : String
  message : String
  data : List (String × Json)
deriving BEq, Repr, Inhabited

/-- Everything reported so far, oldest first. -/
abbrev Journal := List Record

/-- The messages of a journal, of one stage and one level where these are given. -/
def Journal.messages (journal : Journal) (stage? : Option String) (level? : Option Level) :
    List String :=
  (journal.filter fun record =>
    stage?.all (· = record.stage) && level?.all (· = record.level)).map (·.message)

/-- What a stage reports and how it ends. -/
structure Reported (α : Type) where
  records : Journal
  outcome : Except Error α

namespace Reported

variable {α β : Type}

/-- A stage that reports nothing. -/
def ofOutcome (outcome : Except Error α) : Reported α := ⟨[], outcome⟩

/-- A stage after another one; what the first reports comes first. -/
def bind (first : Reported α) (next : α → Reported β) : Reported β :=
  match first.outcome with
  | .ok value => ⟨first.records ++ (next value).records, (next value).outcome⟩
  | .error error => ⟨first.records, .error error⟩

instance : Monad Reported where
  pure value := ofOutcome (.ok value)
  bind := bind

instance : MonadExcept Error Reported where
  throw error := ofOutcome (.error error)
  tryCatch stage handler :=
    match stage.outcome with
    | .ok value => ⟨stage.records, .ok value⟩
    | .error error =>
      ⟨stage.records ++ (handler error).records, (handler error).outcome⟩

instance : MonadLift (Except Error) Reported where
  monadLift := ofOutcome

/-- A stage that only reports. -/
def report (records : Journal) : Reported Unit := ⟨records, .ok ()⟩

def info (stage message : String) : Reported Unit := report [⟨.info, stage, message, []⟩]

def debug (stage message : String) (data : List (String × Json)) : Reported Unit :=
  report [⟨.debug, stage, message, data⟩]

@[simp] theorem outcome_pure (value : α) : (pure value : Reported α).outcome = .ok value := rfl

@[simp] theorem outcome_bind (first : Reported α) (next : α → Reported β) :
    (first >>= next).outcome = first.outcome.bind fun value => (next value).outcome := by
  show (Reported.bind first next).outcome = _
  unfold Reported.bind
  cases first.outcome <;> rfl

@[simp] theorem outcome_ofOutcome (outcome : Except Error α) :
    (ofOutcome outcome).outcome = outcome := rfl

end Reported

end ChainedSdk
