import PageRender.OrderedMap
import PageRender.Text.Quoted

/-!
# Style maps

Property values of one node. The properties that the cascade knows have a fixed order; any other
name passes through and keeps its place of insertion, after the known ones.
-/

namespace PageRender

inductive Property where
  | fontSize
  | fontStyle
  | fontWeight
  | color
  | backgroundColor
  | margin
  | padding
  | border
  | display
  | textDecoration
deriving DecidableEq

namespace Property

def name : Property → String
  | fontSize => "font-size"
  | fontStyle => "font-style"
  | fontWeight => "font-weight"
  | color => "color"
  | backgroundColor => "background-color"
  | margin => "margin"
  | padding => "padding"
  | border => "border"
  | display => "display"
  | textDecoration => "text-decoration"

def all : List Property := [
  fontSize, fontStyle, fontWeight, color, backgroundColor, margin, padding, border, display,
  textDecoration]

def ofName? (s : String) : Option Property :=
  all.find? (·.name == s)

end Property

/-- Values of known properties, beside values of other names. -/
structure StyleMap where
  known : OrderedMap Property String := .empty
  extra : OrderedMap String String := .empty

namespace StyleMap

def empty : StyleMap := {}

def get? (m : StyleMap) (name : String) : Option String :=
  match Property.ofName? name with
  | some p => m.known.get? p
  | none => m.extra.get? name

def getD (m : StyleMap) (name default : String) : String :=
  (m.get? name).getD default

def contains (m : StyleMap) (name : String) : Bool :=
  (m.get? name).isSome

def set (m : StyleMap) (name value : String) : StyleMap :=
  match Property.ofName? name with
  | some p => { m with known := m.known.insert p value }
  | none => { m with extra := m.extra.insert name value }

/-- The map without a name, which must have a value. -/
def erase? (m : StyleMap) (name : String) : Option StyleMap :=
  if m.contains name then
    match Property.ofName? name with
    | some p => some { m with known := m.known.erase p }
    | none => some { m with extra := m.extra.erase name }
  else none

def items (m : StyleMap) : List (String × String) :=
  (Property.all.filterMap fun p => (m.known.get? p).map (p.name, ·)) ++ m.extra.entries

def size (m : StyleMap) : Nat :=
  m.known.size + m.extra.size

def setAll (m : StyleMap) (pairs : List (String × String)) : StyleMap :=
  pairs.foldl (fun m e => m.set e.1 e.2) m

def describe (m : StyleMap) : String :=
  "StyleMap(\x7b" ++
    ", ".intercalate (m.items.map fun e => Text.quoted e.1 ++ ": " ++ Text.quoted e.2) ++ "\x7d)"

end StyleMap

end PageRender
