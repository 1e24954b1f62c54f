import PageRender.CommandLine.Report

/-!
# Written results

Paint commands, drawings and traces are written as JSON, one value a line. Only ASCII is written;
other characters are escaped, those beyond the first plane as two halves.
-/

namespace PageRender.CommandLine

def unitEscape (n : Nat) : List Char :=
  '\\' :: 'u' :: Text.hexDigits 4 n

def writtenChar (c : Char) : List Char :=
  if c == '"' || c == '\\' then ['\\', c]
  else if c == '\n' then ['\\', 'n']
  else if c == '\r' then ['\\', 'r']
  else if c == '\t' then ['\\', 't']
  else if ' ' ≤ c && c.toNat < 128 then [c]
  else if c.toNat < 0x10000 then unitEscape c.toNat
  else
    let n := c.toNat - 0x10000
    unitEscape (0xd800 + n / 0x400) ++ unitEscape (0xdc00 + n % 0x400)

def writtenText (s : String) : String :=
  String.ofList ('"' :: s.toList.flatMap writtenChar ++ ['"'])

def writtenList (values : List String) : String :=
  "[" ++ ", ".intercalate values ++ "]"

def writtenRecord (fields : List (String × String)) : String :=
  "\x7b" ++ ", ".intercalate (fields.map fun (k, v) => writtenText k ++ ": " ++ v) ++ "\x7d"

def rectFields (r : Rect Float) : List (String × String) := [
  ("x", valueText r.left), ("y", valueText r.top), ("width", valueText r.width),
  ("height", valueText r.height)]

def commandLine (c : Command Float) : String :=
  let kind (name : String) := [("kind", writtenText name)] ++ rectFields c.rect
  writtenRecord
    (match c with
      | .text _ content font color =>
        kind "text" ++ [("text", writtenText content), ("font", writtenText font.choice.name),
          ("color", writtenText color)]
      | .fill _ color => kind "rect" ++ [("color", writtenText color)]
      | .border _ color thickness =>
        kind "border" ++ [("color", writtenText color), ("thickness", valueText thickness)]
      | .cursor _ color => kind "cursor" ++ [("color", writtenText color)])

def writtenColor (c : Color) : String :=
  writtenList ([c.red, c.green, c.blue, c.alpha].map toString)

def penFields (p : Pen Float) : List (String × String) := [
  ("color", writtenColor p.color), ("stroke", (p.stroke.map valueText).getD "null"),
  ("smooth", if p.smooth then "true" else "false")]

def canvasLine (c : CanvasCall Float) : String :=
  writtenRecord
    (match c with
      | .clear color => [("kind", writtenText "clear"), ("color", writtenColor color)]
      | .rect r p => [("kind", writtenText "rect")] ++ rectFields r ++ penFields p
      | .string x y content p =>
        [("kind", writtenText "text"), ("x", valueText x), ("y", valueText y),
          ("text", writtenText content)] ++ penFields p)

/-- The written form of an entry of a trace. The time of an event is its place in the trace. -/
def traceEntry (time : Nat) (e : TraceEntry String) : String :=
  let first := [("name", writtenText e.name)] ++
    (e.category?.map fun c => ("cat", writtenText c)).toList ++ [("ph", writtenText e.letter)]
  let args (pairs : List (String × String)) :=
    [("args", writtenRecord (pairs.map fun (k, v) => (k, writtenText v)))]
  writtenRecord
    (match e with
      | .program name => first ++ [("pid", "1")] ++ args [("name", name)]
      | .event event =>
        first ++ [("ts", toString time), ("tid", "1"), ("pid", "1")] ++
          (if event.args.isEmpty then [] else args event.args) ++
          (e.scope?.map fun s => ("s", writtenText s)).toList)

def traceText (entries : List (TraceEntry String)) : String :=
  writtenRecord [
    ("traceEvents", writtenList (entries.zipIdx.map fun (e, time) => traceEntry time e)),
    ("displayTimeUnit", writtenText "ms")]

def usage : String :=
  "usage: page-render [--help] [--width W] [--height H] [--css FILE] [--user-css FILE]\n" ++
  "                   [--base-url URL] [--png FILE] [--trace FILE] [--verbose] page"

end PageRender.CommandLine
