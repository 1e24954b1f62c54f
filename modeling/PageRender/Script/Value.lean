import PageRender.Document.Dom
import PageRender.Script.Program

/-!
# Values of scripts

Functions, natives, objects and elements are told apart by number. A native is a function of the
page or of the program that runs the script.
-/

namespace PageRender.Script

/-- How many arguments a native is given: missing ones are undefined, and further ones are left out
unless it takes any number. -/
structure Arity where
  fixed : Nat
  variadic : Bool := false
deriving DecidableEq

inductive Reply where
  | firstArgument
  | refusal (reason : String)
deriving DecidableEq

/-- A function that is not written in the script. -/
inductive Native where
  | external (name : String) (arity : Arity) (reply : Reply)
  | getElementById
  | querySelector
  | alert
  | setTimeout
  | log
  | getAttribute (element : NodeId)
  | setAttribute (element : NodeId)
  | addEventListener (element : NodeId)
  | click (element : NodeId)
  | preventDefault (dispatch : Nat)
deriving DecidableEq

namespace Native

def name : Native → String
  | external n _ _ => n
  | getElementById => "getElementById"
  | querySelector => "querySelector"
  | alert => "alert"
  | setTimeout => "setTimeout"
  | log => "log"
  | getAttribute _ => "getAttribute"
  | setAttribute _ => "setAttribute"
  | addEventListener _ => "addEventListener"
  | click _ => "click"
  | preventDefault _ => "preventDefault"

def arity : Native → Arity
  | external _ a _ => a
  | getElementById => ⟨1, false⟩
  | querySelector => ⟨1, false⟩
  | alert => ⟨1, false⟩
  | setTimeout => ⟨2, false⟩
  | log => ⟨0, true⟩
  | getAttribute _ => ⟨1, false⟩
  | setAttribute _ => ⟨2, false⟩
  | addEventListener _ => ⟨2, false⟩
  | click _ => ⟨0, false⟩
  | preventDefault _ => ⟨0, false⟩

end Native

inductive Value where
  | undefined
  | null
  | boolean (value : Bool)
  | number (value : Float)
  | string (value : String)
  | function (id : Nat)
  | native (id : Nat) (native : Native)
  | object (id : Nat)
  | element (node : NodeId)

abbrev Scope := OrderedMap String Value

/-- A function of the script, with the variables that could be seen where it was made. -/
structure Closure where
  params : List String
  body : List Stmt
  snapshot : Scope
  name : Option String

namespace Value

def isNullish : Value → Bool
  | undefined | null => true
  | _ => false

def isCallable : Value → Bool
  | function _ | native _ _ => true
  | _ => false

def isTruthy : Value → Bool
  | undefined | null => false
  | boolean b => b
  | number x => !(x == 0) && !x.isNaN
  | string s => !s.isEmpty
  | _ => true

def notANumber : Float := Numeral.undefined.toFloat

def toNumber : Value → Float
  | boolean b => if b then 1 else 0
  | number x => x
  | null => 0
  | string s =>
    let s := Text.trimmed s
    if s.isEmpty then 0 else (readDouble? s).getD notANumber
  | _ => notANumber

/-- The text of a number: whole numbers without a point. -/
def numberText (x : Float) : String :=
  match DoubleParts.ofFloat x with
  | .undefined => "NaN"
  | .infinite negative => if negative then "-Infinity" else "Infinity"
  | .finite .. =>
    match wholeNumber? x with
    | some n => toString n
    | none => valueText x

def isNumeric : Value → Bool
  | boolean _ | number _ => true
  | _ => false

/-- Loose equality: missing values are equal to each other, numbers and texts are compared as
numbers, and all else is equal only to itself. -/
def looselyEquals (a b : Value) : Bool :=
  if a.isNullish || b.isNullish then a.isNullish && b.isNullish
  else
    match a, b with
    | string s, string t => s == t
    | string _, _ => b.isNumeric && a.toNumber == b.toNumber
    | _, string _ => a.isNumeric && a.toNumber == b.toNumber
    | function i, function j => i == j
    | native i _, native j _ => i == j
    | object i, object j => i == j
    | element i, element j => i == j
    | _, _ => a.isNumeric && b.isNumeric && a.toNumber == b.toNumber

def ofLiteral : Literal → Value
  | .number x => number x
  | .string s => string s
  | .boolean b => boolean b
  | .null => null
  | .undefined => undefined

end Value

end PageRender.Script
