import PageRender.Text.Quoted

/-!
# Faults

What stops an operation that has no way to recover: a text of digits that is no number, a missing
part, or a refusal by a supplied font or task.
-/

namespace PageRender

inductive Fault where
  | malformedInteger (text : String)
  | oversizedInteger (digits : Nat)
  | malformedNumber (text : String)
  | oversizedLength
  | missingSize
  | infiniteInteger
  | undefinedInteger
  | statementExpected
  | missingKey (name : String)
  | misplacedBracket
  | bracketedOctets
  | malformedVersion
  | unknownHost (host : String)
  | ambiguousAuthority (authority : String)
  | malformedText
  | malformedPath
  | noDocument
  | unknownMetric (name : String)
  | refused (reason : String)
  | outOfSteps
deriving DecidableEq

namespace Fault

/-- The most characters of a text that are shown where an integer was expected, with the quotation
marks counted. -/
def excerptSize : Nat := 200

def excerpt (text : String) : String :=
  String.ofList ((Text.quoted text).toList.take excerptSize)

def message : Fault → String
  | malformedInteger text => "invalid literal for int() with base 10: " ++ excerpt text
  | oversizedInteger digits =>
    "Exceeds the limit (4300 digits) for integer string conversion: value has " ++
      toString digits ++ " digits; use sys.set_int_max_str_digits() to increase the limit"
  | malformedNumber text => "could not convert string to float: " ++ Text.quoted text
  | oversizedLength => "int too large to convert to float"
  | missingSize => "a size is missing"
  | infiniteInteger => "cannot convert float infinity to integer"
  | undefinedInteger => "cannot convert float NaN to integer"
  | statementExpected => "statement expected at end of input"
  | missingKey name => Text.quoted name
  | misplacedBracket => "Invalid IPv6 URL"
  | bracketedOctets => "An IPv4 address cannot be in brackets"
  | malformedVersion => "IPvFuture address is invalid"
  | unknownHost host => Text.quoted host ++ " does not appear to be an IPv4 or IPv6 address"
  | ambiguousAuthority authority =>
    "netloc '" ++ authority ++ "' contains invalid characters under NFKC normalization"
  | malformedText => "malformed text"
  | malformedPath => "embedded null byte"
  | noDocument => "no document is loaded"
  | unknownMetric name => "Unknown metric: " ++ name
  | refused reason => reason
  | outOfSteps => "evaluation did not end"

end Fault

end PageRender
