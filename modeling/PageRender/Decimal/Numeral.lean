import PageRender.Text.Unicode.Blank
import PageRender.Text.Unicode.Numeric

/-!
# Reading numerals

A numeral is read from text as an exact decimal. Digits may come from any decimal script, single
underscores may separate them, and surrounding space is ignored. Nothing is rounded here.
-/

namespace PageRender

/-- A number as it is written: `digits * 10 ^ exponent`, an infinity, or no number. -/
inductive Numeral where
  | finite (negative : Bool) (digits : Nat) (exponent : Int)
  | infinite (negative : Bool)
  | undefined
deriving DecidableEq

namespace Numeral

def isEdgeSpace (c : Char) : Bool :=
  c == ' ' || (9 ≤ c.toNat && c.toNat ≤ 13)

/-- A digit of any script as the European digit of its value, other blanks as the space. -/
def plainChar (c : Char) : Char :=
  if c.toNat < 127 then c
  else if Text.isBlank c then ' '
  else ((Text.decimalValue? c).map Nat.digitChar).getD c

def plain (s : String) : List Char :=
  let cs := (s.toList.map plainChar).dropWhile isEdgeSpace
  (cs.reverse.dropWhile isEdgeSpace).reverse

/-- Removes the underscores, each of which must stand between two digits. -/
def ungrouped? (previous : Char) : List Char → Option (List Char)
  | [] => if previous == '_' then none else some []
  | c :: cs =>
    if c == '_' then if previous.isDigit then ungrouped? c cs else none
    else if previous == '_' && !c.isDigit then none
    else (ungrouped? c cs).map (c :: ·)

def sign : List Char → Bool × List Char
  | '-' :: cs => (true, cs)
  | '+' :: cs => (false, cs)
  | cs => (false, cs)

def digitsValue (cs : List Char) : Nat :=
  cs.foldl (fun n c => 10 * n + (c.toNat - '0'.toNat)) 0

def exponent? : List Char → Option Int
  | [] => some 0
  | c :: cs =>
    let (negative, digits) := sign cs
    if (c == 'e' || c == 'E') && !digits.isEmpty && digits.all Char.isDigit then
      some (if negative then -(digitsValue digits : Int) else digitsValue digits)
    else none

/-- A numeral without its sign: digits around at most one point, then an exponent. -/
def unsigned? (negative : Bool) (cs : List Char) : Option Numeral :=
  let name := cs.map Char.toLower
  if name == "inf".toList || name == "infinity".toList then some (.infinite negative)
  else if name == "nan".toList then some .undefined
  else
    let (whole, rest) := cs.span Char.isDigit
    let (part, rest) :=
      match rest with
      | '.' :: rest => rest.span Char.isDigit
      | rest => ([], rest)
    if whole.isEmpty && part.isEmpty then none
    else (exponent? rest).map fun e =>
      .finite negative (digitsValue (whole ++ part)) (e - part.length)

/-- Reads a decimal numeral; `none` if the text is not one. -/
def read? (s : String) : Option Numeral := do
  let (negative, cs) := sign (← ungrouped? ' ' (plain s))
  unsigned? negative cs

/-- The value of a digit below `base`, letters standing for ten and more. -/
def digitBelow? (base : Nat) (c : Char) : Option Nat :=
  let value :=
    if c.isDigit then some (c.toNat - '0'.toNat)
    else if c.isLower then some (c.toNat - 'a'.toNat + 10)
    else if c.isUpper then some (c.toNat - 'A'.toNat + 10)
    else none
  value.filter (· < base)

/-- The digit values of a row of digits, in which single underscores may stand between digits. -/
def digitRow? (base : Nat) (afterDigit : Bool) : List Char → Option (List Nat)
  | [] => if afterDigit then some [] else none
  | c :: cs =>
    if c == '_' && afterDigit then digitRow? base false cs
    else (digitBelow? base c).bind fun d => (digitRow? base true cs).map (d :: ·)

def afterBaseMark (base : Nat) : List Char → List Char
  | '0' :: x :: cs =>
    if base == 16 && (x == 'x' || x == 'X') then
      match cs with
      | '_' :: rest => rest
      | rest => rest
    else '0' :: x :: cs
  | cs => cs

def integerDigits? (base : Nat) (s : String) : Option (Bool × List Nat) :=
  let (negative, cs) := sign (plain s)
  (digitRow? base false (afterBaseMark base cs)).map (negative, ·)

def maxIntegerDigits : Nat := 4300

def ofDigits (base : Nat) (negative : Bool) (digits : List Nat) : Int :=
  let n : Nat := digits.foldl (fun n d => base * n + d) 0
  if negative then -(n : Int) else n

/-- Reads an integer numeral; `none` if the text is not one or has too many digits. -/
def readInteger? (base : Nat) (s : String) : Option Int := do
  let (negative, digits) ← integerDigits? base s
  if base == 10 && digits.length > maxIntegerDigits then none
  else some (ofDigits base negative digits)

end Numeral

end PageRender
