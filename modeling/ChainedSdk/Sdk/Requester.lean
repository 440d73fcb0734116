import ChainedSdk.Config.Basic
/-!
# The requester

Every request of a generated SDK goes through one function that the user of the SDK brings along.
Its type, and the base class that holds it, depend on the configuration only.
-/

namespace ChainedSdk

/-- The type of the function that makes requests. -/
structure Requester where
  name : String
  /-- Whether documents are handed over as plain text. -/
  takesText : Bool
deriving DecidableEq, Repr, Inhabited

namespace Requester

def ofConfig (config : Config) : Requester := ⟨config.requesterName, config.documentMode = .string⟩

def documentType (requester : Requester) : String :=
  if requester.takesText then "string" else "DocumentNode"

/-- The import lines that the type needs. -/
def imports (requester : Requester) : List String :=
  if requester.takesText then [] else ["import \x7b DocumentNode \x7d from 'graphql'"]

/-- The type as the generated code declares it. -/
def signature (requester : Requester) : String :=
  "<Data, Variables extends Record<string, unknown>>(doc: " ++ requester.documentType ++
    ", variables?: Variables) => Promise<Data>"

/-- The lines that declare the type and the base class of all generated classes. -/
def lines (requester : Requester) : List String := [
  "/**",
  " * The function used to make requests.",
  " * Receives the operation document as " ++
    (if requester.takesText then "a string" else "a DocumentNode") ++ " and its variables.",
  " */",
  "export type " ++ requester.name ++ " = " ++ requester.signature ++ ";",
  "",
  "/**",
  " * Base class holding the requester and the values inherited along a call chain.",
  " */",
  "export class Request \x7b",
  "  protected _request: " ++ requester.name ++ ";",
  "  protected _chain: Record<string, unknown>;",
  "",
  "  public constructor(request: " ++ requester.name ++
    ", chain: Record<string, unknown> = \x7b\x7d) \x7b",
  "    this._request = request;",
  "    this._chain = chain;",
  "  \x7d",
  "\x7d",
  ""]

end Requester

end ChainedSdk
