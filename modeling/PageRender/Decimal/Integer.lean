import PageRender.Decimal.Numeral
import PageRender.Fault

/-!
# Integers from digits

A text may consist of digits and yet be no integer: superscript and enclosed digits have no
decimal value, and there is a limit on the number of digits. The limit is looked at before what
follows the digits.
-/

namespace PageRender

def readInteger (s : String) : Except Fault Int :=
  let (negative, cs) := Numeral.sign (Numeral.plain s)
  let (row, rest) := cs.span fun c => c.isDigit || c == '_'
  match Numeral.digitRow? 10 false row with
  | none => .error (.malformedInteger s)
  | some digits =>
    if Numeral.maxIntegerDigits < digits.length then .error (.oversizedInteger digits.length)
    else if rest.isEmpty then .ok (Numeral.ofDigits 10 negative digits)
    else .error (.malformedInteger s)

def isDigits (s : String) : Bool :=
  !s.isEmpty && s.toList.all Text.isDigit

end PageRender
