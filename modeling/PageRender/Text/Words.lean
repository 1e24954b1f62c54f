import PageRender.Text.Unicode.Blank

/-!
# Words and edges

Texts are cut at blank characters and trimmed of them. Everything works on character lists; the
`String` forms only wrap them.
-/

namespace PageRender.Text

def trimStart (cs : List Char) : List Char :=
  cs.dropWhile isBlank

def trim (cs : List Char) : List Char :=
  (trimStart (trimStart cs).reverse).reverse

/-- The maximal runs of characters that are not blank. -/
def words (cs : List Char) : List (List Char) :=
  (cs.splitBy fun a b => isBlank a == isBlank b).filter fun run => run.any (!isBlank ·)

/-- Whether the text holds nothing to show: at least one character, all of them blank. -/
def isAllBlank (cs : List Char) : Bool :=
  !cs.isEmpty && cs.all isBlank

def trimmed (s : String) : String :=
  String.ofList (trim s.toList)

/-- The maximal runs of characters that are not blank. -/
def wordsOf (s : String) : List String :=
  (words s.toList).map String.ofList

/-- The text without a given ending, if it has that ending. -/
def dropEnding? (ending s : String) : Option String :=
  if ending.toList.isSuffixOf s.toList then
    some (String.ofList (s.toList.take (s.length - ending.length)))
  else none

end PageRender.Text
