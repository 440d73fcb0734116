import ChainedSdk.Chain.Assemble
import ChainedSdk.Chain.WellFormed
import ChainedSdk.Operation.Collect
/-!
# Resolving chains

From documents and models to a checked forest: the operations are collected, their candidates
ranked, parents chosen, and the trees built and checked.
-/

namespace ChainedSdk

def Forest.resolve (context : Context) (documents : List DocumentFile) (models : List Model) :
    Reported Forest := do
  Reported.info Stage.chain "Processing documents"
  let table := modelTable models
  let operations ← collectOperations context table documents
  let candidates := Candidate.ofOperations context.config table operations
  let forest ← Forest.assemble context.config table candidates operations
  liftM (forest.check context table)
  Reported.debug Stage.chain "Resolved chains" [("definitions", forest.summary)]
  return forest

end ChainedSdk
