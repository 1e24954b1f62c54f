import PageRender.Decimal.Integer
import PageRender.Decimal.Written
import PageRender.Text.Unicode.LowerCase
import PageRender.Text.Words

/-!
# Colors

A color is a name, three, six or eight hexadecimal digits after a number sign, or three or four
components between parentheses. Anything else is black. Components are not checked for their range.
-/

namespace PageRender

structure Color where
  red : Int
  green : Int
  blue : Int
  alpha : Int
deriving DecidableEq

namespace Color

def black : Color := ⟨0, 0, 0, 255⟩

def white : Color := ⟨255, 255, 255, 255⟩

def named : List (String × Color) := [
  ("black", black),
  ("white", white),
  ("red", ⟨255, 0, 0, 255⟩),
  ("green", ⟨0, 255, 0, 255⟩),
  ("blue", ⟨0, 0, 255, 255⟩),
  ("yellow", ⟨255, 255, 0, 255⟩),
  ("cyan", ⟨0, 255, 255, 255⟩),
  ("magenta", ⟨255, 0, 255, 255⟩),
  ("gray", ⟨128, 128, 128, 255⟩),
  ("grey", ⟨128, 128, 128, 255⟩),
  ("lightgray", ⟨211, 211, 211, 255⟩),
  ("lightgrey", ⟨211, 211, 211, 255⟩),
  ("lightblue", ⟨173, 216, 230, 255⟩),
  ("darkgray", ⟨169, 169, 169, 255⟩),
  ("darkgrey", ⟨169, 169, 169, 255⟩),
  ("orange", ⟨255, 165, 0, 255⟩),
  ("purple", ⟨128, 0, 128, 255⟩),
  ("pink", ⟨255, 192, 203, 255⟩),
  ("brown", ⟨165, 42, 42, 255⟩),
  ("transparent", ⟨0, 0, 0, 0⟩)]

def hexPair? (a b : Char) : Option Int :=
  Numeral.readInteger? 16 (String.ofList [a, b])

/-- The color of hexadecimal digits. Three digits are doubled, and a color without opacity is
opaque. -/
def ofHex? (digits : List Char) : Option Color :=
  let digits := if digits.length == 3 then digits.flatMap fun c => [c, c] else digits
  let digits := if digits.length == 6 then digits ++ ['f', 'f'] else digits
  match digits with
  | [r, r', g, g', b, b', a, a'] => do
    return ⟨← hexPair? r r', ← hexPair? g g', ← hexPair? b b', ← hexPair? a a'⟩
  | _ => none

/-- The opacity a numeral stands for, in steps of one in 255; `none` for what is no number. An
infinite opacity is a fault. -/
def opacity (s : String) : Except Fault (Option Int) :=
  match readDouble? s with
  | none => .ok none
  | some x =>
    match DoubleParts.ofFloat (x * 255) with
    | .infinite _ => .error .infiniteInteger
    | .undefined => .ok none
    | .finite .. => .ok (truncated? (x * 255))

def ofComponents? (s : String) : Except Fault (Option Color) :=
  let name := s.toList.takeWhile (· != '(')
  match s.toList.dropWhile (· != '(') with
  | _ :: inside =>
    if inside.getLast? != some ')' then .ok none
    else
      let parts := ((String.ofList inside.dropLast).splitOn ",").map Text.trimmed
      let integer? := Numeral.readInteger? 10
      match String.ofList name, parts with
      | "rgb", [r, g, b] =>
        .ok do return ⟨← integer? r, ← integer? g, ← integer? b, 255⟩
      | "rgba", [r, g, b, a] =>
        match integer? r, integer? g, integer? b with
        | some r, some g, some b => (opacity a).map (·.map (⟨r, g, b, ·⟩))
        | _, _, _ => .ok none
      | _, _ => .ok none
  | [] => .ok none

/-- The color of a text; black where there is none. -/
def parse (s : Option String) : Except Fault Color :=
  match s with
  | none => .ok black
  | some s =>
    let s := Text.trimmed (Text.lowerCase s)
    match named.lookup s with
    | some c => .ok c
    | none =>
      match s.toList with
      | '#' :: digits => .ok ((ofHex? digits).getD black)
      | _ => (ofComponents? s).map (·.getD black)

/-- Whether a background of this color need not be painted. -/
def isTransparent (s : Option String) : Bool :=
  match s with
  | none => true
  | some s =>
    let s := Text.trimmed (Text.lowerCase s)
    let compact := s.toList.filter (· != ' ')
    ["", "transparent", "none"].contains s ||
      ("rgba(".toList.isPrefixOf compact && ",0)".toList.isSuffixOf compact)

end Color

end PageRender
