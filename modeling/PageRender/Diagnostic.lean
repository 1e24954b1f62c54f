import PageRender.Text.Quoted

/-!
# Diagnostics

Readers of markup and of stylesheets never fail. What they step over they report, with the
position in the text at which it was noticed.
-/

namespace PageRender

inductive Finding where
  | openInsideTag
  | unterminatedTag
  | emptyTag
  | unmatchedClosing (tag : String)
  | mismatchedClosing (tag opened : String)
  | expectedMark (mark : Char) (found : Option Char)
  | expectedWord (found : Option Char)
  | emptyValue
deriving DecidableEq

namespace Finding

def foundText (found : Option Char) : String :=
  Text.quoted ((found.map String.singleton).getD "end of input")

def message : Finding → String
  | openInsideTag => "unexpected '<' inside tag"
  | unterminatedTag => "unterminated tag at end of input"
  | emptyTag => "empty tag"
  | unmatchedClosing tag => "unmatched closing tag <" ++ tag ++ ">"
  | mismatchedClosing tag opened =>
    "mismatched closing tag <" ++ tag ++ "> for <" ++ opened ++ ">"
  | expectedMark mark found =>
    "expected " ++ Text.quotedCharacter mark ++ ", found " ++ foundText found
  | expectedWord found => "expected a word, found " ++ foundText found
  | emptyValue => "empty declaration value"

end Finding

/-- The kind of text a diagnostic is about. -/
inductive TextKind where
  | markup
  | stylesheet
deriving DecidableEq

/-- One finding at a position, counted in characters from the start of the text. -/
structure Diagnostic where
  source : TextKind
  position : Nat
  finding : Finding
deriving DecidableEq

namespace Diagnostic

def line (d : Diagnostic) : String :=
  let source := match d.source with
    | .markup => "html"
    | .stylesheet => "css"
  source ++ ":" ++ toString d.position ++ ": " ++ d.finding.message

end Diagnostic

end PageRender
