import ChainedSdk.Command.Run
/-!
# The program

Reads the files that a command line names, runs the command on them, prints its lines and writes its
output file.
-/

namespace ChainedSdk.Command

/-- The content of a file; one that cannot be read as text is empty. -/
def contentAt (place : List String) : IO String :=
  try IO.FS.readFile (Path.absolute place) catch _ => return ""

/-- The files and directories at a place and below it. -/
partial def treeAt (workingDirectory place : List String) : IO FileTree := do
  let path := (← IO.currentDir) / Path.absolute place
  if ← path.isDir then
    let entries ← path.readDir
    let inner ← entries.toList.mapM fun entry =>
      treeAt workingDirectory (place ++ [entry.fileName])
    return {
      workingDirectory
      files := inner.flatMap (·.files)
      directories := place :: inner.flatMap (·.directories) }
  else if ← path.pathExists then
    return { workingDirectory, files := [(place, ← contentAt place)] }
  else return { workingDirectory, files := [] }

/-- What stands at a place and on the way to it from another one, without contents and without what
lies below. -/
def treeTowards (workingDirectory reached : List String) : List String → IO FileTree
  | [] => return { workingDirectory, files := [] }
  | name :: rest => do
    let next := reached ++ [name]
    let path := (← IO.currentDir) / Path.absolute next
    let later ← treeTowards workingDirectory next rest
    if ← path.isDir then return { later with directories := next :: later.directories }
    else if ← path.pathExists then return { later with files := (next, "") :: later.files }
    else return later

def treeFor (arguments : List String) : IO FileTree := do
  let workingDirectory := Path.names (← IO.currentDir).toString
  let empty : FileTree := { workingDirectory, files := [] }
  match Request.read? arguments with
  | some (.generate line) =>
    let inputs ← line.inputPaths.mapM fun path =>
      treeAt workingDirectory (Path.resolve workingDirectory path)
    let output ← treeTowards workingDirectory []
      (Path.resolve workingDirectory ((line.value? .output).getD ""))
    return (inputs ++ [output]).foldl FileTree.merge empty
  | _ => return empty

/-- Writes a file, after the directories on the way to it. -/
def writeAt (place : List String) (content : String) : IO Unit := do
  IO.FS.createDirAll (Path.absolute place.dropLast)
  IO.FS.writeFile (Path.absolute place) content

end ChainedSdk.Command

open ChainedSdk ChainedSdk.Command in
def main (arguments : List String) : IO UInt32 := do
  let outcome := run arguments (← treeFor arguments)
  match outcome.written? with
  | some (place, content) => writeAt place content
  | none => pure ()
  for line in outcome.lines do IO.println line
  match outcome.explanation?, outcome.failure? with
  | some line, _ => IO.eprintln line
  | none, some error => IO.eprintln (error.category.text ++ ": " ++ error.message)
  | none, none => if outcome.exitStatus = 2 then usage.forM (IO.eprintln ·)
  return outcome.exitStatus.toUInt32
