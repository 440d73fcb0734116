import ChainedSdk.Command.Arguments
import ChainedSdk.Sdk.Output
import ChainedSdk.Text.ControlSequence
/-!
# Running the command

A run reads a file tree and gives the lines that it prints, the exit status and the file that it
writes, if it comes that far. Lines printed before a failure stay printed. The file is written at
the end, so what is in its way counts last.
-/

namespace ChainedSdk.Command

/-- How a run ends. A malformed command line leaves it to the caller to explain the usage. -/
structure Outcome where
  exitStatus : Nat
  /-- The lines of the standard output. -/
  lines : List String := []
  failure? : Option Error := none
  /-- The place and the content of the written file. -/
  written? : Option (List String × String) := none
deriving DecidableEq, Repr, Inhabited

/-- A run in progress: it prints lines and may fail. -/
abbrev Session := ExceptT Error (StateM (List String))

def say (line : String) : Session Unit := modify fun lines => lines ++ [Text.plain line]

/-- What is wrong with the value of an option. -/
inductive ValueFault where
  | unfit
  | nullInPath (path : String)
deriving DecidableEq, Repr

namespace CommandLine

/-- What is wrong with a path that has to lead to something. -/
def pathFault? (path : String) (leads : Bool) : Option ValueFault :=
  if Path.hasNull path then some (.nullInPath path) else if leads then none else some .unfit

def valueFault? (line : CommandLine) (tree : FileTree) (name : OptionName) : Option ValueFault :=
  let value := (line.value? name).getD ""
  match name with
  | .schema => pathFault? value (tree.find? value).isSome
  | .documents => (line.values name).findSome? fun path => pathFault? path (tree.find? path).isSome
  | .output => pathFault? value true
  | .config => pathFault? value (tree.read? value).isSome
  | .templateDirectory => pathFault? value (tree.find? value = some .directory)
  | .documentMode => if (DocumentMode.ofText? value).isSome then none else some .unfit
  | .documentFile | .verbose | .help => none

/-- What is wrong with the first option that has an unfit value. -/
def fault? (line : CommandLine) (tree : FileTree) : Option ValueFault :=
  line.given.findSome? fun given => line.valueFault? tree given.1

end CommandLine

namespace Options

def overrides (options : Options) : List (String × Json) :=
  let text (value? : Option String) : Json := (value?.map Json.text).getD .null
  [(Setting.documentFile.name, text options.documentFile?),
    (Setting.documentMode.name, text (options.documentMode?.map DocumentMode.text))]

def config (options : Options) (tree : FileTree) : Except Error Config :=
  match options.config? with
  | none => Config.load ∅ options.overrides
  | some path => Config.ofFileText path ((tree.read? path).getD "") options.overrides

def outputPlace (options : Options) (tree : FileTree) : List String :=
  Path.resolve tree.workingDirectory options.output

def templates (options : Options) (tree : FileTree) : Except Error Templates :=
  match options.templateDirectory? with
  | none => .ok {}
  | some path => Templates.ofDirectory tree path

end Options

def classCount (text : String) : Nat := (text.splitOn "export class ").length - 1

/-- The part of a run that may fail; it gives the generated text. -/
def generate (options : Options) (tree : FileTree) : Session String := do
  let output := Path.absolute (options.outputPlace tree)
  let config ← liftExcept (options.config tree)
  if options.verbose then
    say ("Schema: " ++ options.schema)
    say ("Documents: " ++ ", ".intercalate options.documents)
    say ("Output: " ++ output)
  say "Parsing schema..."
  let schema ← liftExcept (tree.readSchema options.schema)
  say "Parsing documents..."
  let documents ← liftExcept (tree.readDocuments options.documents)
  let config ← liftExcept ((ConfigSource.loaded config).validate output).outcome
  if options.verbose then
    say ("  Definitions: " ++ toString schema.definitions.length)
    say ("  Documents: " ++ toString documents.length)
  say "Generating SDK..."
  let generated ← liftExcept (Sdk.generate (.parsed schema) (documents.map .parsed)
    (.loaded config) (options.templates tree)).outcome
  return generated.text

/-- The part of a run that puts a text into the output file. -/
def write (options : Options) (tree : FileTree) (text : String) : Session Unit := do
  let place := options.outputPlace tree
  let output := Path.absolute place
  let check (obstacle? : Option Obstacle) : Session Unit :=
    match obstacle? with
    | none => pure ()
    | some obstacle => throw (.unwritable output obstacle)
  check (tree.directoryObstacle? place)
  say ("Writing to " ++ output ++ "...")
  check (tree.fileObstacle? place)
  if options.verbose then
    say ("  Lines: " ++ toString (Text.lineCount text.toList))
    say ("  Classes: " ++ toString (classCount text))
  say ("Done! Generated SDK in " ++ output)

/-- The outcome of a run that failed after some lines. -/
def Outcome.ofFailure (error : Error) (lines : List String) : Outcome :=
  { exitStatus := 1, lines, failure? := some error }

/-- The line about a failure that is explained to the user. -/
def Outcome.explanation? (outcome : Outcome) : Option String :=
  match outcome.failure? with
  | some error =>
    if error.category.isExplained then some (Text.plain ("Error: " ++ error.message)) else none
  | none => none

def Outcome.misuse : Outcome := { exitStatus := 2 }

def runOptions (options : Options) (tree : FileTree) : Outcome :=
  let session : Session String := do
    let text ← generate options tree
    write options tree text
    return text
  match session.run.run [] with
  | (.error error, lines) => .ofFailure error lines
  | (.ok text, lines) =>
    { exitStatus := 0, lines, written? := some (options.outputPlace tree, text) }

/-- Runs the command with the options of a command line. A value that does not fit counts before an
option that is missing. -/
def runLine (line : CommandLine) (tree : FileTree) : Outcome :=
  match line.fault? tree, line.options? with
  | some (.nullInPath path), _ => .ofFailure (.nullInPath path) []
  | none, some options => runOptions options tree
  | _, _ => .misuse

def usage : List String := [
  "Usage: " ++ Error.generatorName ++ " " ++ commandName ++ " [OPTIONS]",
  "",
  "  Generate a typed SDK from a schema and operation documents.",
  "",
  "Options:",
  "  -s, --schema PATH       GraphQL schema file or directory (required)",
  "  -d, --documents PATH    operation document file or directory (required, repeatable)",
  "  -o, --output PATH       output file, which must end in .ts (required)",
  "  --document-file TEXT    import path of the typed-document module",
  "  --document-mode MODE    " ++ ", ".intercalate (DocumentMode.all.map DocumentMode.text),
  "  -c, --config FILE       JSON file with the configuration",
  "  --template-dir DIR      directory with templates of sections",
  "  -v, --verbose           print more about the run"]

def run (arguments : List String) (tree : FileTree) : Outcome :=
  match Request.read? arguments with
  | none => .misuse
  | some .help => { exitStatus := 0, lines := usage }
  | some .version => .ofFailure .unknownVersion []
  | some (.generate line) => runLine line tree

end ChainedSdk.Command
