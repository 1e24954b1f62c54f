import PageRender.Decimal.Integer

/-!
# Options of the command line

One operand names the page; options may stand before and after it. A long option may be cut short as
long as only one option begins like that, and its value may follow an equals sign. After two hyphens
everything is an operand. A negative number is an operand, not an option.
-/

namespace PageRender.CommandLine

/-- What the program is asked to do. A size may have been taken away from it. -/
structure Options where
  page : String
  width : Option Int := some 800
  height : Option Int := some 600
  authorSheet : String := ""
  userSheet : String := ""
  address : String := ""
  image : String := ""
  trace : String := ""
  verbose : Bool := false
deriving DecidableEq

/-- Why there is nothing to do: the user asked for help, or for something that does not exist. -/
inductive Refusal where
  | help
  | usage
deriving DecidableEq

def Refusal.exitCode : Refusal → Nat
  | help => 0
  | usage => 2

inductive OptionName where
  | help
  | width
  | height
  | css
  | userCss
  | baseUrl
  | png
  | trace
  | verbose
deriving DecidableEq

namespace OptionName

def text : OptionName → String
  | help => "--help"
  | width => "--width"
  | height => "--height"
  | css => "--css"
  | userCss => "--user-css"
  | baseUrl => "--base-url"
  | png => "--png"
  | trace => "--trace"
  | verbose => "--verbose"

def all : List OptionName :=
  [help, width, height, css, userCss, baseUrl, png, trace, verbose]

def takesValue : OptionName → Bool
  | help | verbose => false
  | _ => true

/-- The options that a text may stand for: the one that is written like that, or all that begin like
that. -/
def candidates (s : List Char) : List OptionName :=
  match all.find? (·.text.toList == s) with
  | some n => [n]
  | none => all.filter fun n => s.isPrefixOf n.text.toList

end OptionName

/-- An argument by what it looks like. -/
inductive Argument where
  | operand (text : String)
  | separator
  | option (name : OptionName) (value : Option String)
  | shortOptions (letters : List Char)
  | unknown
deriving DecidableEq

namespace Argument

def isNumberTail (cs : List Char) : Bool :=
  let cs := if cs.getLast? == some '\n' then cs.dropLast else cs
  match cs.dropWhile Text.isDecimal with
  | [] => !cs.isEmpty
  | '.' :: fraction => !fraction.isEmpty && fraction.all Text.isDecimal
  | _ => false

def ofOther (cs : List Char) : Argument :=
  if isNumberTail cs.tail || cs.contains ' ' then operand (String.ofList cs) else unknown

def valueOf? (cs : List Char) : Option String :=
  match cs.dropWhile (· != '=') with
  | [] => none
  | _ :: value => some (String.ofList value)

def ofLong (cs : List Char) : Except Refusal Argument :=
  match OptionName.candidates (cs.takeWhile (· != '=')) with
  | [] => .ok (ofOther cs)
  | [n] => .ok (option n (valueOf? cs))
  | _ => .error .usage

def classify (s : String) : Except Refusal Argument :=
  match s.toList with
  | '-' :: '-' :: rest => ofLong ('-' :: '-' :: rest)
  | ['-'] => .ok (operand s)
  | '-' :: 'h' :: letters => .ok (shortOptions ('h' :: letters))
  | '-' :: rest => .ok (ofOther ('-' :: rest))
  | _ => .ok (operand s)

def classifyAll : List String → Except Refusal (List Argument)
  | [] => .ok []
  | s :: rest =>
    if s == "--" then .ok (separator :: rest.map operand)
    else do
      let a ← classify s
      return a :: (← classifyAll rest)

/-- Whether short options, of which there is only the one for help, are written as they should: one
after another, perhaps with an equals sign after the first. -/
def areShortOptions : List Char → Bool
  | 'h' :: '=' :: letters => !letters.isEmpty && letters.all (· == 'h')
  | letters => letters.all (· == 'h')

end Argument

/-- What has been read of a command line. -/
structure Reading where
  page : Option String := none
  options : Options := { page := "" }
  surplus : Bool := false

def pixelsOf (value : String) : Except Refusal Int :=
  (readInteger value).mapError fun _ => .usage

/-- The options with one of them set, to a value or to none. -/
def setOption (o : Options) (name : OptionName) (value : Option String) : Except Refusal Options :=
  let text := value.getD ""
  match name with
  | .width => (value.mapM pixelsOf).map fun width => { o with width }
  | .height => (value.mapM pixelsOf).map fun height => { o with height }
  | .css => .ok { o with authorSheet := text }
  | .userCss => .ok { o with userSheet := text }
  | .baseUrl => .ok { o with address := text }
  | .png => .ok { o with image := text }
  | .trace => .ok { o with trace := text }
  | .help | .verbose => .ok o

/-- A value that is written behind an equals sign; two hyphens there are no value. -/
def inlineValue (value : String) : Option String :=
  if value == "--" then none else some value

def Reading.set (r : Reading) (name : OptionName) (value : Option String) :
    Except Refusal Reading :=
  (setOption r.options name value).map fun options => { r with options }

def Reading.take (r : Reading) (operand : String) : Reading :=
  match r.page with
  | none => { r with page := some operand }
  | some _ => { r with surplus := true }

def Reading.finish (r : Reading) : Except Refusal Options :=
  match r.page with
  | some page => if r.surplus then .error .usage else .ok { r.options with page }
  | none => .error .usage

/-- Reads arguments from left to right. A separator is a surplus argument unless the page stands
right before or behind it. -/
def readArguments (r : Reading) : List Argument → Except Refusal Options
  | [] => r.finish
  | .option name value :: rest =>
    if name.takesValue then
      match value, rest with
      | some v, rest => do readArguments (← r.set name (inlineValue v)) rest
      | none, .operand v :: rest => do readArguments (← r.set name (some v)) rest
      | none, _ => .error .usage
    else if value.isSome then .error .usage
    else if name = .help then .error .help
    else readArguments { r with options := { r.options with verbose := true } } rest
  | .shortOptions letters :: _ =>
    .error (if Argument.areShortOptions letters then .help else .usage)
  | .unknown :: rest => readArguments { r with surplus := true } rest
  | .operand s :: .separator :: rest =>
    readArguments { r.take s with surplus := r.surplus || r.page.isSome } rest
  | .operand s :: rest => readArguments (r.take s) rest
  | .separator :: .operand s :: rest =>
    readArguments { r.take s with surplus := r.surplus || r.page.isSome } rest
  | .separator :: rest => readArguments { r with surplus := true } rest

def readOptions (args : List String) : Except Refusal Options := do
  readArguments {} (← Argument.classifyAll args)

end PageRender.CommandLine
