import ChainedSdk.Config.Basic
/-!
# The command line

The arguments of the generator's one command. An option is written with two hyphens and its name,
or with one hyphen and its letter; its value is the next argument, or follows at once: after an
equals sign behind a name, directly behind a letter. Letters may share one hyphen. Of an option
given several times the last value counts, except that every document path counts.
-/

namespace ChainedSdk.Command

inductive OptionName where
  | schema
  | documents
  | output
  | documentFile
  | documentMode
  | config
  | templateDirectory
  | verbose
  | help
deriving DecidableEq, Repr, Inhabited

namespace OptionName

def names : List (String × OptionName) :=
  [("schema", schema), ("documents", documents), ("output", output),
    ("document-file", documentFile), ("document-mode", documentMode), ("config", config),
    ("template-dir", templateDirectory), ("verbose", verbose), ("help", help)]

def letters : List (Char × OptionName) :=
  [('s', schema), ('d', documents), ('o', output), ('c', config), ('v', verbose)]

def takesValue : OptionName → Bool
  | verbose | help => false
  | _ => true

end OptionName

/-- A given option; one without a value has the empty text. -/
abbrev Given := OptionName × String

/-- The options of one argument behind a single hyphen, and the arguments left after them. An option
with a value takes what is left of its argument, or else the next one. -/
def readLetters (rest : List String) : List Char → Option (List Given × List String)
  | [] => some ([], rest)
  | letter :: letters =>
    match OptionName.letters.lookup letter with
    | none => none
    | some name =>
      if name.takesValue then
        match letters, rest with
        | [], [] => none
        | [], value :: rest => some ([(name, value)], rest)
        | _, _ => some ([(name, String.ofList letters)], rest)
      else (readLetters rest letters).map fun found => ((name, "") :: found.1, found.2)

/-- The option of one argument behind two hyphens, and the arguments left after it. -/
def readName (rest : List String) (argument : List Char) : Option (List Given × List String) :=
  let attached? := match argument.dropWhile (· ≠ '=') with
    | _ :: value => some (String.ofList value)
    | [] => none
  match OptionName.names.lookup (String.ofList (argument.takeWhile (· ≠ '='))) with
  | none => none
  | some name =>
    match name.takesValue, attached?, rest with
    | false, none, _ => some ([(name, "")], rest)
    | false, some _, _ => none
    | true, some value, _ => some ([(name, value)], rest)
    | true, none, value :: rest => some ([(name, value)], rest)
    | true, none, [] => none

theorem readLetters_length_le {rest : List String} {letters : List Char}
    {found : List Given × List String} (read : readLetters rest letters = some found) :
    found.2.length ≤ rest.length := by
  induction letters generalizing found with
  | nil => cases read; exact Nat.le_refl _
  | cons letter letters inductionHypothesis =>
    unfold readLetters at read
    split at read
    · contradiction
    · split at read
      · split at read <;> cases read <;> simp
      · obtain ⟨inner, readInner, rfl⟩ := Option.map_eq_some_iff.mp read
        have shorter := inductionHypothesis readInner
        exact shorter

theorem readName_length_le {rest : List String} {argument : List Char}
    {found : List Given × List String} (read : readName rest argument = some found) :
    found.2.length ≤ rest.length := by
  unfold readName at read
  grind

/-- The options of a command line with the arguments that belong to none. -/
structure CommandLine where
  given : List Given := []
  extra : List String := []
deriving DecidableEq, Repr, Inhabited

def CommandLine.addGiven (line : CommandLine) (given : List Given) : CommandLine :=
  { line with given := given ++ line.given }

/-- A command line with an argument in front that belongs to no option. -/
def CommandLine.addExtra (line : CommandLine) (argument : String) : CommandLine :=
  { line with extra := argument :: line.extra }

/-- Reads arguments. Two hyphens alone end the options. -/
def CommandLine.read? : List String → Option CommandLine
  | [] => some {}
  | argument :: rest =>
    match argument.toList with
    | ['-', '-'] => some { extra := rest }
    | '-' :: '-' :: name =>
      match found : readName rest name with
      | none => none
      | some (given, left) =>
        have : left.length < rest.length + 1 := Nat.lt_succ_of_le (readName_length_le found)
        (read? left).map (·.addGiven given)
    | '-' :: letter :: letters =>
      match found : readLetters rest (letter :: letters) with
      | none => none
      | some (given, left) =>
        have : left.length < rest.length + 1 := Nat.lt_succ_of_le (readLetters_length_le found)
        (read? left).map (·.addGiven given)
    | _ => (read? rest).map (·.addExtra argument)
termination_by arguments => arguments.length

/-- What the command is asked to do. -/
structure Options where
  schema : String
  documents : List String
  output : String
  documentFile? : Option String := none
  documentMode? : Option DocumentMode := none
  config? : Option String := none
  templateDirectory? : Option String := none
  verbose : Bool := false
deriving DecidableEq, Repr, Inhabited

namespace CommandLine

def values (line : CommandLine) (name : OptionName) : List String :=
  (line.given.filter fun entry => entry.1 = name).map Prod.snd

def value? (line : CommandLine) (name : OptionName) : Option String :=
  (line.values name).getLast?

def inputPaths (line : CommandLine) : List String :=
  line.values .documents ++
    [OptionName.schema, .config, .templateDirectory].filterMap line.value?

/-- The options of a command line that leaves out nothing required and gives nothing unknown. -/
def options? (line : CommandLine) : Option Options := do
  guard line.extra.isEmpty
  let documents := line.values .documents
  guard !documents.isEmpty
  let documentMode? ← match line.value? .documentMode with
    | none => some none
    | some text => (DocumentMode.ofText? text).map some
  return {
    schema := ← line.value? .schema
    documents
    output := ← line.value? .output
    documentFile? := line.value? .documentFile
    documentMode?
    config? := line.value? .config
    templateDirectory? := line.value? .templateDirectory
    verbose := (line.value? .verbose).isSome }

end CommandLine

/-- What a command line asks for. -/
inductive Request where
  | help
  | version
  | generate (line : CommandLine)
deriving DecidableEq, Repr

def commandName : String := "generate"

/-- The request behind the name of the command. -/
def Request.ofArguments? (arguments : List String) : Option Request := do
  let line ← CommandLine.read? arguments
  return if (line.value? .help).isSome then .help else .generate line

/-- The requests that options in front of a command make, with the arguments left after them. Two
hyphens alone end the options. -/
def Request.leading? : List String → Option (List Request × List String)
  | [] => some ([], [])
  | "--" :: rest => some ([], rest)
  | "--help" :: rest => (leading? rest).map fun found => (.help :: found.1, found.2)
  | "--version" :: rest => (leading? rest).map fun found => (.version :: found.1, found.2)
  | argument :: rest =>
    if argument.startsWith "-" && argument ≠ "-" then none else some ([], argument :: rest)

/-- The request of a whole command line, or nothing if it is malformed. An option still counts where
the command is expected after two hyphens. -/
def Request.read? (arguments : List String) : Option Request := do
  match ← leading? arguments with
  | (request :: _, _) => return request
  | ([], []) => none
  | ([], name :: rest) =>
    if name = commandName then ofArguments? rest
    else (← leading? (name :: rest)).1.head?

end ChainedSdk.Command
