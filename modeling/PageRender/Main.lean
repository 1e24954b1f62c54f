import PageRender.CommandLine.Output

/-!
# The program

Reads the files that the command line names, and prints and writes what comes of them. A picture is
written as the list of what a canvas is told to draw.
-/

open PageRender PageRender.CommandLine

def readFromDisk (path : Path) : IO (Except FileProblem ByteArray) := do
  try
    return .ok (← IO.FS.readBinFile path.text)
  catch e =>
    match e with
    | .noFileOrDirectory .. => return .error .notFound
    | e => return .error (.other (toString e))

def gatherFiles (o : Options) : IO FileSource := do
  let paths := ([o.page, o.authorSheet, o.userSheet].filter (!·.contains '\x00')).map Path.parse
  let contents ← paths.mapM fun p => return (p, ← readFromDisk p)
  return fun p => (contents.lookup p).getD (.error .notFound)

def deliver (report : Report) : IO UInt32 := do
  for entry in report.journal do
    IO.eprintln entry.line
  for command in report.display do
    IO.println (commandLine command)
  if let some picture := report.picture then
    IO.FS.writeFile picture.path ("\n".intercalate (picture.calls.map canvasLine))
  if let some trace := report.trace then
    IO.FS.writeFile trace.path (traceText trace.entries)
  match report.ending with
  | .exit code => return code.toUInt32
  | .fault f => do
    IO.eprintln f.message
    return 1

def main (args : List String) : IO UInt32 := do
  match readOptions args with
  | .error .help => do
    IO.println usage
    return 0
  | .error .usage => do
    IO.eprintln usage
    return 2
  | .ok o => do
    let directory := (Path.parse (← IO.currentDir).toString).segments
    deliver (runOptions (← gatherFiles o) directory o)
