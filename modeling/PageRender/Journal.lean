/-!
# The journal

Messages for the people who run the program, in the order in which they arise.
-/

namespace PageRender

inductive Level where
  | info
  | warning
  | error
deriving DecidableEq

structure JournalEntry where
  level : Level
  text : String

def JournalEntry.line (e : JournalEntry) : String :=
  (match e.level with
    | .info => "INFO: "
    | .warning => "WARNING: "
    | .error => "ERROR: ") ++ e.text

abbrev Journal := List JournalEntry

end PageRender
