import ApnRegistry.CommandLine

/-!
# The program

Reads the files that the command line names, runs the command, and prints its outcome or puts it in
place of the output file. Exit code 1 means that the command failed, 2 that it was not understood.
-/

open ApnRegistry

/-- The content of a file, if it can be read. -/
def readFile? (path : String) : IO (Option ByteArray) := do
  try
    return some (← IO.FS.readBinFile path)
  catch _ => return none

/-- Writes a file next to its place and moves it there. -/
def writeFile (path text : String) : IO Unit := do
  let draft := path ++ ".new"
  IO.FS.writeFile draft text
  IO.FS.rename draft path

/-- Carries a command out. -/
def runInvocation (i : CommandLine.Invocation) : IO UInt32 := do
  let mut files : List (String × ByteArray) := []
  for path in i.inputs do
    if let some content ← readFile? path then files := (path, content) :: files
  let found := files
  match i.run (found.lookup ·) with
  | .error e =>
    IO.eprintln e.message
    return 1
  | .ok text =>
    match i.output with
    | none =>
      IO.print text
      return 0
    | some path =>
      try
        writeFile path text
        return 0
      catch e =>
        IO.eprintln (toString e)
        return 1

/-- Carries out what the command line asks for. -/
def main (args : List String) : IO UInt32 := do
  let defaults ← IO.getEnv "APNSTORE_DEFAULTS"
  let config ← IO.getEnv "APNSTORE_CONFIG"
  let environment (name : String) : Option String :=
    if name = "APNSTORE_DEFAULTS" then defaults else if name = "APNSTORE_CONFIG" then config else none
  match CommandLine.parse args environment with
  | .error .misuse =>
    IO.eprint CommandLine.helpText
    return 2
  | .error .help =>
    IO.print CommandLine.helpText
    return 0
  | .error .version =>
    IO.print CommandLine.versionText
    return 0
  | .ok invocation => runInvocation invocation
