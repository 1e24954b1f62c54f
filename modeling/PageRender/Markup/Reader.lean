import PageRender.Markup.Builder

/-!
# Reading markup

The text is read once. Runs of text and the texts of tags go to the builder; inside an element
with plain content everything up to its closing tag is one run of text.
-/

namespace PageRender.Markup

/-- Whether a character matches a small letter regardless of case. The long s counts as an s, the
two Turkish letters as an i. -/
def matchesLetter (letter c : Char) : Bool :=
  c == letter || c.toLower == letter || (letter == 's' && c == 'ſ') ||
    (letter == 'i' && (c == 'ı' || c == 'İ'))

/-- Whether the text starts with `start`, regardless of case. -/
def startsWith : (start : List Char) → List Char → Bool
  | [], _ => true
  | _ :: _, [] => false
  | p :: ps, c :: cs => matchesLetter p c && startsWith ps cs

/-- The text up to the first closing tag of an element, and the rest. -/
def splitRaw (tag : String) : List Char → List Char × List Char
  | [] => ([], [])
  | c :: cs =>
    if startsWith ('<' :: '/' :: tag.toList) (c :: cs) then ([], c :: cs)
    else
      let (raw, rest) := splitRaw tag cs
      (c :: raw, rest)

theorem length_splitRaw_le (tag : String) (cs : List Char) :
    (splitRaw tag cs).2.length ≤ cs.length := by
  induction cs with
  | nil => simp [splitRaw]
  | cons c cs ih =>
    simp only [splitRaw]
    split
    · simp
    · simp only [List.length_cons]
      omega

/-- The plain content that follows an opening tag, if the innermost element has such content. -/
def rawContent (b : Builder) (cs : List Char) : List Char × List Char :=
  match b.rawTag? with
  | some tag => splitRaw tag cs
  | none => ([], cs)

theorem length_rawContent_le (b : Builder) (cs : List Char) :
    (rawContent b cs).2.length ≤ cs.length := by
  unfold rawContent
  split
  · exact length_splitRaw_le _ _
  · simp

/-- Adds a run of text that is not empty. -/
def addRun (b : Builder) (run : List Char) : Builder :=
  if run.isEmpty then b else b.addText run

/-- Reads the rest of a text, inside or outside a tag. The characters since the last angle bracket
are held in reverse. -/
def read (b : Builder) (inTag : Bool) (held : List Char) : List Char → Builder
  | [] => if inTag then b.report 0 .unterminatedTag else addRun b held.reverse
  | c :: cs =>
    if c == '<' then
      let b := if inTag then b.report (cs.length + 1) .openInsideTag else addRun b held.reverse
      read b true [] cs
    else if c == '>' && inTag then
      let b := b.addTag (cs.length + 1) held.reverse
      let raw := rawContent b cs
      read (addRun b raw.1) false [] raw.2
    else read b inTag (c :: held) cs
termination_by cs => cs.length
decreasing_by
  · simp
  · exact Nat.lt_succ_of_le (length_rawContent_le _ _)
  · simp

/-- A document and what was stepped over while reading it. -/
structure Document where
  root : Node Unit
  diagnostics : List Diagnostic

def parse (source : String) : Document :=
  let cs := source.toList
  let b := read {} false [] cs
  ⟨b.finish, b.findings.map fun (left, finding) => ⟨.markup, cs.length - left, finding⟩⟩

/-- The nodes that a piece of markup stands for inside an element. -/
def parseFragment (source : String) : List (Node Unit) :=
  let root := (parse ("<body>" ++ source ++ "</body>")).root
  ((root.children.find? (Node.hasTag "body")).map Node.children).getD []

end PageRender.Markup
