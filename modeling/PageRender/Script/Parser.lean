import PageRender.Fault
import PageRender.Script.Program
import PageRender.Script.Token

/-!
# Reading programs

Each reader takes what it needs from the front of the tokens. Operators bind in four levels between
their operands, tighter than assignment and looser than operators in front. Errors carry the number
of tokens that were left.

Readers that call each other have a supply of steps. One call for each level of the grammar and
token is enough, so `parse` never runs out of it.
-/

namespace PageRender.Script

inductive Expected where
  | mark (mark : Mark)
  | identifier
  | expression
  | assignable
deriving DecidableEq

/-- What was found instead: no further token, a token or an expression, by what it is called. -/
inductive Found where
  | endOfInput
  | named (name : String)
deriving DecidableEq

/-- Why a program cannot be read. -/
inductive ParseError where
  | unexpected (expected : Expected) (found : Found) (left : Nat)
  | statementExpected
  | outOfSteps
deriving DecidableEq

def Expected.text : Expected → String
  | mark m => m.name
  | identifier => "IDENTIFIER"
  | expression => "expression"
  | assignable => "assignable expression"

def Found.text : Found → String
  | endOfInput => "end of input"
  | named name => name

def foundAt : List Token → Found
  | [] => .endOfInput
  | t :: _ => .named t.kind

def failAt {α : Type} (expected : Expected) (ts : List Token) :
    Except ParseError (α × List Token) :=
  .error (.unexpected expected (foundAt ts) ts.length)

def startsWith (m : Mark) : List Token → Bool
  | .mark m' :: _ => m == m'
  | _ => false

def takeMark (m : Mark) (ts : List Token) : Except ParseError (Unit × List Token) :=
  match ts with
  | .mark m' :: rest => if m' == m then .ok ((), rest) else failAt (.mark m) ts
  | _ => failAt (.mark m) ts

def takeName (ts : List Token) : Except ParseError (String × List Token) :=
  match ts with
  | .identifier n :: rest => .ok (n, rest)
  | _ => failAt .identifier ts

/-- Takes the end of a statement, which need not be written before a closing brace and at the end.
-/
def takeTerminator (ts : List Token) : Except ParseError (Unit × List Token) :=
  match ts with
  | [] => .ok ((), [])
  | .mark .semicolon :: rest => .ok ((), rest)
  | .mark .closeBrace :: _ => .ok ((), ts)
  | _ => failAt (.mark .semicolon) ts

def paramNames : List Token → Except ParseError (List String × List Token)
  | .mark .closeParen :: rest => .ok ([], rest)
  | .identifier n :: .mark .closeParen :: rest => .ok ([n], rest)
  | .identifier n :: .mark .comma :: rest =>
    (paramNames rest).map fun (ns, rest) => (n :: ns, rest)
  | .identifier _ :: rest => failAt (.mark .comma) rest
  | ts => failAt .identifier ts

def params (ts : List Token) : Except ParseError (List String × List Token) := do
  let ((), ts) ← takeMark .openParen ts
  paramNames ts

def declarationKind? : Token → Option DeclarationKind
  | .keyword .declareVar => some .var
  | .keyword .declareLet => some .let_
  | .keyword .declareConst => some .const
  | _ => none

def binaryOp? (level : Nat) : Token → Option BinaryOp
  | .mark .equals => if level == 0 then some .equal else none
  | .mark .notEquals => if level == 0 then some .notEqual else none
  | .mark .less => if level == 1 then some .less else none
  | .mark .greater => if level == 1 then some .greater else none
  | .mark .plus => if level == 2 then some .add else none
  | .mark .minus => if level == 2 then some .subtract else none
  | .mark .times => if level == 3 then some .multiply else none
  | .mark .divide => if level == 3 then some .divide else none
  | _ => none

def unaryOp? : Token → Option UnaryOp
  | .mark .not => some .not
  | .mark .minus => some .negate
  | _ => none

def updateOp? : Token → Option UpdateOp
  | .mark .increment => some .increment
  | .mark .decrement => some .decrement
  | _ => none

def literal? : Token → Option Literal
  | .number x => some (.number x)
  | .string s => some (.string s)
  | .keyword .trueWord => some (.boolean true)
  | .keyword .falseWord => some (.boolean false)
  | .keyword .nullWord => some .null
  | .keyword .undefinedWord => some .undefined
  | _ => none

/-- The name of a member; words of the language are names here. -/
def memberName? : Token → Option String
  | .identifier n => some n
  | .keyword w => some w.text
  | _ => none

/-- The target that an expression reads; `left` tokens follow it. -/
def targetOf (e : Expr) (left : Nat) : Except ParseError Target :=
  match e.toTarget? with
  | some t => .ok t
  | none => .error (.unexpected .assignable (.named e.form) left)

/-- The tokens after the name that a function expression may have and that binds nothing. -/
def skipName : List Token → List Token
  | .identifier _ :: rest => rest
  | ts => ts

mutual

def statement : Nat → List Token → Except ParseError (Stmt × List Token)
  | 0, _ => .error .outOfSteps
  | n + 1, ts =>
    match ts with
    | [] => .error .statementExpected
    | .keyword .function :: .identifier name :: rest => do
      let (ps, rest) ← params rest
      let (body, rest) ← block n rest
      return (.function name ps body, rest)
    | .keyword .ifWord :: rest => do
      let ((), rest) ← takeMark .openParen rest
      let (test, rest) ← expression n rest
      let ((), rest) ← takeMark .closeParen rest
      let (consequent, rest) ← statement n rest
      match rest with
      | .keyword .elseWord :: rest => do
        let (alternate, rest) ← statement n rest
        return (.ifElse test consequent (some alternate), rest)
      | _ => return (.ifElse test consequent none, rest)
    | .keyword .forWord :: rest => do
      let ((), rest) ← takeMark .openParen rest
      let (init, rest) ← forInit n rest
      let ((), rest) ← takeMark .semicolon rest
      let (test, rest) ← optionalExpression n .semicolon rest
      let ((), rest) ← takeMark .semicolon rest
      let (update, rest) ← optionalExpression n .closeParen rest
      let ((), rest) ← takeMark .closeParen rest
      let (body, rest) ← statement n rest
      return (.forLoop init test update body, rest)
    | .keyword .whileWord :: rest => do
      let ((), rest) ← takeMark .openParen rest
      let (test, rest) ← expression n rest
      let ((), rest) ← takeMark .closeParen rest
      let (body, rest) ← statement n rest
      return (.whileLoop test body, rest)
    | .keyword .returnWord :: rest => do
      let ends := rest.isEmpty || startsWith .semicolon rest || startsWith .closeBrace rest
      let (argument, rest) ←
        if ends then pure (none, rest)
        else (expression n rest).map fun (e, rest) => (some e, rest)
      let ((), rest) ← takeTerminator rest
      return (.returns argument, rest)
    | .mark .openBrace :: _ => do
      let (body, rest) ← block n ts
      return (.block body, rest)
    | .mark .semicolon :: rest => return (.block [], rest)
    | t :: rest =>
      match declarationKind? t with
      | some kind => do
        let (s, rest) ← declaration n kind rest
        let ((), rest) ← takeTerminator rest
        return (s, rest)
      | none => do
        let (e, rest) ← expression n ts
        let ((), rest) ← takeTerminator rest
        return (.expression e, rest)

def declaration : Nat → DeclarationKind → List Token → Except ParseError (Stmt × List Token)
  | 0, _, _ => .error .outOfSteps
  | n + 1, kind, ts => do
    let (name, rest) ← takeName ts
    match rest with
    | .mark .assign :: rest => do
      let (init, rest) ← expression n rest
      return (.declare kind name (some init), rest)
    | _ => return (.declare kind name none, rest)

def forInit : Nat → List Token → Except ParseError (Option Stmt × List Token)
  | 0, _ => .error .outOfSteps
  | n + 1, ts =>
    match ts.head?.bind declarationKind? with
    | some kind => (declaration n kind ts.tail).map fun (s, rest) => (some s, rest)
    | none =>
      if startsWith .semicolon ts then .ok (none, ts)
      else (expression n ts).map fun (e, rest) => (some (.expression e), rest)

/-- Takes an expression unless a mark stands in its place. -/
def optionalExpression :
    Nat → Mark → List Token → Except ParseError (Option Expr × List Token)
  | 0, _, _ => .error .outOfSteps
  | n + 1, m, ts =>
    if startsWith m ts then .ok (none, ts)
    else (expression n ts).map fun (e, rest) => (some e, rest)

def block : Nat → List Token → Except ParseError (List Stmt × List Token)
  | 0, _ => .error .outOfSteps
  | n + 1, ts => do
    let ((), rest) ← takeMark .openBrace ts
    statements n rest

def statements : Nat → List Token → Except ParseError (List Stmt × List Token)
  | 0, _ => .error .outOfSteps
  | n + 1, ts =>
    match ts with
    | .mark .closeBrace :: rest => .ok ([], rest)
    | [] => failAt (.mark .closeBrace) []
    | _ => do
      let (s, rest) ← statement n ts
      let (ss, rest) ← statements n rest
      return (s :: ss, rest)

def expression : Nat → List Token → Except ParseError (Expr × List Token)
  | 0, _ => .error .outOfSteps
  | n + 1, ts => do
    let (e, rest) ← operation n 0 ts
    match rest with
    | .mark .assign :: after =>
      match e.toTarget? with
      | some target => do
        let (value, rest) ← expression n after
        return (.assign target value, rest)
      | none => failAt .assignable rest
    | _ => return (e, rest)

/-- Takes operands and the operators of one level and tighter ones between them. -/
def operation : Nat → Nat → List Token → Except ParseError (Expr × List Token)
  | 0, _, _ => .error .outOfSteps
  | n + 1, level, ts =>
    if level < 4 then do
      let (e, rest) ← operation n (level + 1) ts
      operations n level e rest
    else unary n ts

def operations : Nat → Nat → Expr → List Token → Except ParseError (Expr × List Token)
  | 0, _, _, _ => .error .outOfSteps
  | n + 1, level, e, ts =>
    match ts with
    | [] => .ok (e, [])
    | t :: rest =>
      match binaryOp? level t with
      | none => .ok (e, ts)
      | some op => do
        let (right, rest) ← operation n (level + 1) rest
        operations n level (.binary op e right) rest

def unary : Nat → List Token → Except ParseError (Expr × List Token)
  | 0, _ => .error .outOfSteps
  | n + 1, ts =>
    match ts with
    | [] => withSuffix n []
    | t :: rest =>
      match unaryOp? t, updateOp? t with
      | some op, _ => do
        let (e, rest) ← unary n rest
        return (.unary op e, rest)
      | none, some op => do
        let (e, rest) ← unary n rest
        return (.update op (← targetOf e rest.length) true, rest)
      | none, none => withSuffix n ts

def withSuffix : Nat → List Token → Except ParseError (Expr × List Token)
  | 0, _ => .error .outOfSteps
  | n + 1, ts => do
    let (e, rest) ← primary n ts
    let (e, rest) ← accesses n e rest
    match rest with
    | [] => return (e, [])
    | t :: after =>
      match updateOp? t with
      | some op => return (.update op (← targetOf e after.length) false, after)
      | none => return (e, rest)

def accesses : Nat → Expr → List Token → Except ParseError (Expr × List Token)
  | 0, _, _ => .error .outOfSteps
  | n + 1, e, ts =>
    match ts with
    | .mark .openParen :: rest => do
      let (args, rest) ← arguments n rest
      accesses n (.call e args) rest
    | .mark .openBracket :: rest => do
      let (key, rest) ← expression n rest
      let ((), rest) ← takeMark .closeBracket rest
      accesses n (.index e key) rest
    | .mark .dot :: rest =>
      match rest.head?.bind memberName? with
      | some name => accesses n (.member e name) rest.tail
      | none => failAt .identifier rest
    | _ => .ok (e, ts)

def arguments : Nat → List Token → Except ParseError (List Expr × List Token)
  | 0, _ => .error .outOfSteps
  | n + 1, ts =>
    if startsWith .closeParen ts then .ok ([], ts.tail)
    else do
      let (e, rest) ← expression n ts
      if startsWith .closeParen rest then return ([e], rest.tail)
      else
        let ((), rest) ← takeMark .comma rest
        let (es, rest) ← arguments n rest
        return (e :: es, rest)

def primary : Nat → List Token → Except ParseError (Expr × List Token)
  | 0, _ => .error .outOfSteps
  | n + 1, ts =>
    match ts with
    | .identifier name :: rest => .ok (.name name, rest)
    | .keyword .function :: rest => do
      let (ps, rest) ← params (skipName rest)
      let (body, rest) ← block n rest
      return (.function ps body, rest)
    | .mark .openParen :: rest => do
      let (e, rest) ← expression n rest
      let ((), rest) ← takeMark .closeParen rest
      return (e, rest)
    | _ =>
      match ts.head?.bind literal? with
      | some l => .ok (.literal l, ts.tail)
      | none => failAt .expression ts

end

def program : Nat → List Token → Except ParseError Program
  | 0, _ => .error .outOfSteps
  | n + 1, ts =>
    if ts.isEmpty then .ok []
    else do
      let (s, rest) ← statement n ts
      return s :: (← program n rest)

def stepsFor (tokens : Nat) : Nat :=
  16 * (tokens + 1)

def parse (ts : List Token) : Except ParseError Program :=
  program (stepsFor ts.length) ts

end PageRender.Script
