import HostScript.Command.Program

/-!
# The command line

Reads the files that the arguments name, follows the arguments, prints, and leaves behind what
changed.
-/

namespace HostScript.CommandLine

def pathOf (path : Text) : String :=
  path.toString?.getD ""

def archivePath (folder : Text) : Text :=
  folder ++ Text.ofString "/entries.cbor"

def bytesOf (text : Text) : ByteArray :=
  ⟨text.toArray⟩

def content? (path : Text) : IO (Option Text) := do
  match ← (IO.FS.readBinFile (pathOf path)).toBaseIO with
  | .ok bytes => return some bytes.toList
  | .error _ => return none

def readFiles (files : Files) : List Text → IO Files
  | [] => return files
  | path :: rest => do
    match ← content? path with
    | some content =>
      readFiles { files with contents := files.contents.insert path content } rest
    | none => readFiles files rest

/-- What a run with some options finds: the files they name and the database they keep. -/
def findWorkspace (options : Options) : IO Workspace := do
  let named ← readFiles {} [options.config, options.file]
  let built :=
    Config.build named options.config options.file options.expr options.kind options.flags
  match built with
  | .error _ => return { files := named }
  | .ok config =>
    let files ← readFiles named [config.snapshot, config.stateDb]
    match (← content? (archivePath config.stateDb)).bind Database.ofArchive? with
    | some database => return { files, databases := [(config.stateDb, database)] }
    | none => return { files }

def leave (found left : Workspace) : IO Unit := do
  for (path, content) in left.files.contents do
    if found.files.contents.find? path ≠ some content then
      IO.FS.writeBinFile (pathOf path) (bytesOf content)
  for (path, database) in left.databases do
    if found.databases.find? path ≠ some database then
      IO.FS.createDirAll (pathOf path)
      IO.FS.writeBinFile (pathOf (archivePath path)) (bytesOf database.archive)

def say (execution : Command.Execution) : IO Unit := do
  let output ← IO.getStdout
  output.write (bytesOf execution.output)
  output.flush
  let errors ← IO.getStderr
  for remark in execution.remarks do
    errors.write (bytesOf (remark ++ [Text.byte '\n']))

/-- Follows the arguments; what cannot be written is a failure of its own. -/
def run (arguments : List Text) : IO UInt32 := do
  let found ←
    match Options.parse {} arguments with
    | .ok options => findWorkspace options
    | .error _ => pure {}
  match Command.execute arguments found with
  | none => return 1
  | some execution =>
    say execution
    match ← (leave found execution.workspace).toBaseIO with
    | .ok _ => return execution.status.toUInt32
    | .error problem =>
      IO.eprintln (toString problem)
      return 1

end HostScript.CommandLine

def main (arguments : List String) : IO UInt32 :=
  HostScript.CommandLine.run (arguments.map HostScript.Text.ofString)
