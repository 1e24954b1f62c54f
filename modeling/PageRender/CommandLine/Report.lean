import PageRender.CommandLine.Options
import PageRender.CommandLine.Path
import PageRender.Frame.Loading
import PageRender.Paint.Raster

/-!
# Rendering from the command line

The files are read, the page is loaded into a frame, and its paint commands are listed. On request
they are drawn, and the stages are traced. The callbacks of timers are never called.
-/

namespace PageRender.CommandLine

open Script

inductive Ending where
  | exit (code : Nat)
  | fault (fault : Fault)
deriving DecidableEq

/-- A picture with the name of the file that it goes to. -/
structure Picture where
  path : String
  calls : List (CanvasCall Float)

/-- A trace with the name of the file that it goes to. -/
structure TraceFile where
  path : String
  entries : List (TraceEntry String)

structure Report where
  ending : Ending
  display : List (Command Float) := []
  picture : Option Picture := none
  trace : Option TraceFile := none
  journal : Journal := []

/-- Why the input cannot be had: a problem with a file, which the user is told, or a fault. -/
inductive InputProblem where
  | file (message : String)
  | fault (fault : Fault)

def plainLines : List Char → List Char
  | '\r' :: '\n' :: rest => '\n' :: plainLines rest
  | '\r' :: rest => '\n' :: plainLines rest
  | c :: rest => c :: plainLines rest
  | [] => []

def readText (files : FileSource) (name : String) : Except InputProblem String :=
  if name.contains '\x00' then .error (.fault .malformedPath)
  else
    let path := Path.parse name
    match files path with
    | .error e => .error (.file (e.message path.text))
    | .ok content =>
      match String.fromUTF8? content with
      | some s => .ok (String.ofList (plainLines s.toList))
      | none => .error (.fault .malformedText)

/-- The text in a file that need not be named. -/
def readOptional (files : FileSource) (name : String) : Except InputProblem String :=
  if name.isEmpty then .ok "" else readText files name

structure Input where
  html : String
  authorSheet : String
  userSheet : String

def readInput (files : FileSource) (o : Options) : Except InputProblem Input := do
  let html ← readText files o.page
  let authorSheet ← readOptional files o.authorSheet
  return { html, authorSheet, userSheet := ← readOptional files o.userSheet }

def pageAddress (directory : List String) (o : Options) : String :=
  if o.address.isEmpty then "file://" ++ (Path.parse o.page).url directory else o.address

def pictureLine (width height : Int) (path : String) : String :=
  "Wrote " ++ toString width ++ "x" ++ toString height ++ " image to " ++ path

def drawPicture (o : Options) : FrameM Picture := do
  match o.width, o.height with
  | some width, some height => do
    let drawn := raster (← get).display (doubleOfInt height) 0
    match ← traced "raster" "raster" [] (pure drawn) with
    | .error e => throw e
    | .ok calls => do
      modify (·.write .info (pictureLine width height o.image))
      return { path := o.image, calls }
  | _, _ => throw .missingSize

def skipScripts : List String → FrameM Unit
  | [] => return
  | url :: urls => do
    modify (·.write .info ("Skipping external script " ++ url))
    skipScripts urls

def finishTrace (path : String) : FrameM (Option TraceFile) := do
  let f ← get
  match f.tracer.entries? with
  | none => return none
  | some entries => do
    set { f with tracer := f.tracer.stopped }
    modify (·.write .info
      ("Trace with " ++ toString f.tracer.events.length ++ " events saved to " ++ path))
    return some { path, entries }

def finishRun (o : Options) : FrameM (Option Picture × Option TraceFile) := do
  let picture ← if o.image.isEmpty then pure none else some <$> drawPicture o
  modify (·.onPage Page.discard)
  return (picture, ← finishTrace o.trace)

def pageWidthIn (viewport : Int) : Float :=
  doubleOfInt (max 0 (viewport - 2 * pageMarginX))

def startFrame (o : Options) (input : Input) : Frame where
  pageWidth := o.width.map pageWidthIn
  fonts := standardFonts
  shelf := some {}
  userSheet := input.userSheet
  tracer := if o.trace.isEmpty then {} else .begin

/-- Loads the page. One that is too wide for a double is given up once it has its styles. -/
def loadInput (directory : List String) (o : Options) (input : Input) : FrameM Unit := do
  let address := pageAddress directory o
  if (← get).pageWidth.any Float.isInf then do
    openPage input.html address input.authorSheet
    discard restyle
    throw .oversizedLength
  else do
    load input.html address input.authorSheet
    skipScripts (← get).externalScripts

def renderInput (directory : List String) (o : Options) (input : Input) : Report :=
  match loadInput directory o input (startFrame o input) with
  | .error e f => { ending := .fault e, journal := f.page.journal }
  | .ok () f =>
    match finishRun o f with
    | .error e g => { ending := .fault e, display := f.display, journal := g.page.journal }
    | .ok (picture, trace) g =>
      { ending := .exit 0, display := f.display, picture, trace, journal := g.page.journal }

def runOptions (files : FileSource) (directory : List String) (o : Options) : Report :=
  match readInput files o with
  | .error (.file message) =>
    { ending := .exit 1, journal := [⟨.error, "Cannot read input: " ++ message⟩] }
  | .error (.fault e) => { ending := .fault e }
  | .ok input => renderInput directory o input

def run (files : FileSource) (directory : List String) (args : List String) : Report :=
  match readOptions args with
  | .error refusal => { ending := .exit refusal.exitCode }
  | .ok o => runOptions files directory o

end PageRender.CommandLine
