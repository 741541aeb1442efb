import ProtoDecl.Command.Run

/-!
# The program

Reads the files that the arguments name, and does what the program plans to do with them.
-/

open ProtoDecl

/-- The cause of a failed access to a file. -/
def fileError : IO.Error → Command.FileError
  | .noFileOrDirectory .. => .notFound
  | .inappropriateType .. => .isDirectory
  | e => .other (toString e)

/-- Reads a file. -/
def readFile (path : String) : IO (Except Command.FileError Command.Bytes) := do
  try
    let bytes ← IO.FS.readBinFile path
    return .ok bytes.data.toList
  catch e => return .error (fileError e)

/-- Prints the output of a run, and gives its exit code. -/
def printOutput (output : Command.Output) : IO UInt32 := do
  (← IO.getStdout).putStr output.stdout
  (← IO.getStderr).putStr output.stderr
  return output.exit.toUInt32

/-- The command line. -/
def main (arguments : List String) : IO UInt32 := do
  let paths := Command.conventions.paths arguments
  let contents ← paths.mapM fun path => do return (path, ← readFile path)
  let read path := (contents.lookup path).getD (.error .notFound)
  match Command.conventions.plan arguments read with
  | .print output => printOutput output
  | .store path bytes stored refused =>
    try
      IO.FS.writeBinFile path ⟨bytes.toArray⟩
      printOutput stored
    catch e => printOutput (refused (fileError e))
