import ChainedSdk.Blueprint
import ChainedSdk.Sdk.Build
import ChainedSdk.Sdk.Template
import ChainedSdk.Sdk.Text
/-!
# The output of a run

The generated file from its first line to its last. `print` writes a blueprint down; `generate` goes
the whole way from the sources and reports a failure with its cause.
-/

namespace ChainedSdk

/-- A generated SDK: the lines that come first, and everything below them. -/
structure Output where
  opening : List String
  content : String
deriving DecidableEq, Repr, Inhabited

def Output.text (output : Output) : String :=
  "\n".intercalate output.opening ++ "\n\n" ++ output.content

namespace Sdk

/-- The lines that come first. -/
def opening (requester : Requester) : List String :=
  ["/* eslint-disable @typescript-eslint/no-unused-vars */"] ++ requester.imports ++
    ["import \x7b ResultOf \x7d from '@graphql-typed-document-node/core'"]

/-- Everything below the first lines, from the two sections. -/
def content (config : Config) (requester : Requester) (models operations : String) : String :=
  "\n".intercalate ([
    "import * as " ++ documentsNamespace ++ " from '" ++ config.documentFile ++ "'",
    "export * from '" ++ config.documentFile ++ "'\n"] ++
    requester.lines ++ [models, operations])

/-- Writes down the SDK of a blueprint. -/
def print (blueprint : Blueprint) (templates : Templates) : Reported Output := do
  let { context, models, forest } := blueprint
  let requester := Requester.ofConfig context.config
  Reported.info Stage.plugin "Generating models"
  let classes ← (modelClasses context models forest : Except Error (List ModelClass))
  Reported.info Stage.plugin "Generating operations"
  let operations ← (operationClasses context forest : Except Error (List OperationClass))
  let entry ← (entryClass context forest : Except Error EntryClass)
  Reported.info Stage.plugin "Printing api"
  return {
    opening := opening requester
    content := content context.config requester
      (templates.models?.getD (modelsText requester classes))
      (templates.operations?.getD (operationsText requester operations entry)) }

def failure (error : Error) : Record where
  level := .critical
  stage := Stage.plugin
  message := error.message
  data := [("error", .text error.category.text)]

/-- Generates an SDK. What went wrong with the templates counts once the blueprint is there. A
failure is reported and stays a failure. -/
def generate (schema : SchemaSource) (documents : List DocumentSource) (config : ConfigSource)
    (templates : Except Error Templates) : Reported Output :=
  tryCatch (Blueprint.ofSources schema documents config >>= fun blueprint => do
      print blueprint (← templates))
    fun error => do
      Reported.report [failure error]
      throw error

end Sdk

end ChainedSdk
