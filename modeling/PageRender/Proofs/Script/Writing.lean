import PageRender.Script.Lexer
import PageRender.Script.Parser

/-! # How programs are written

The tokens that a program is written as. Expressions hold together with different tightness; one stands
in parentheses where its place asks for more than it has, and nowhere else. Statements end with a
semicolon unless they end with another statement or a brace.
-/

namespace PageRender.Script

/-! ## Words and marks -/

def Literal.token : Literal → Token
  | .number x => .number x
  | .string s => .string s
  | .boolean true => .keyword .trueWord
  | .boolean false => .keyword .falseWord
  | .null => .keyword .nullWord
  | .undefined => .keyword .undefinedWord

def UnaryOp.mark : UnaryOp → Mark
  | not => .not
  | negate => .minus

def BinaryOp.mark : BinaryOp → Mark
  | equal => .equals
  | notEqual => .notEquals
  | less => .less
  | greater => .greater
  | add => .plus
  | subtract => .minus
  | multiply => .times
  | divide => .divide

def UpdateOp.mark : UpdateOp → Mark
  | increment => .increment
  | decrement => .decrement

def DeclarationKind.keyword : DeclarationKind → Keyword
  | var => .declareVar
  | let_ => .declareLet
  | const => .declareConst

/-! ## Tightness -/

/-- The level of an operator between its operands; those of one level are taken from the left. -/
def BinaryOp.level : BinaryOp → Nat
  | equal | notEqual => 0
  | less | greater => 1
  | add | subtract => 2
  | multiply | divide => 3

/-- How tightly an expression holds together: least an assignment, then the four levels of operators
between operands, operators in front, operators behind, calls and members, and most of all what stands
for itself. -/
def Expr.tightness : Expr → Nat
  | .assign .. => 0
  | .binary op _ _ => op.level + 1
  | .unary .. => 5
  | .update _ _ before => if before then 5 else 6
  | .call .. | .member .. | .index .. => 7
  | .literal _ | .name _ | .function .. => 8

/-- The tokens of an expression in a place that asks for some tightness. -/
def inPlace (least tightness : Nat) (ts : List Token) : List Token :=
  if tightness < least then .mark .openParen :: (ts ++ [.mark .closeParen]) else ts

def separated : List (List Token) → List Token
  | [] => []
  | [ts] => ts
  | ts :: us :: rest => ts ++ .mark .comma :: separated (us :: rest)

def paramTokens (names : List String) : List Token :=
  .mark .openParen :: (separated (names.map fun name => [.identifier name]) ++ [.mark .closeParen])

/-! ## Programs -/

mutual

def Expr.tokens : Expr → List Token
  | .literal l => [l.token]
  | .name name => [.identifier name]
  | .member object name => inPlace 7 object.tightness object.tokens ++ [.mark .dot, wordToken name]
  | .index object key =>
    inPlace 7 object.tightness object.tokens ++
      .mark .openBracket :: (key.tokens ++ [.mark .closeBracket])
  | .call callee args =>
    inPlace 7 callee.tightness callee.tokens ++
      .mark .openParen :: (separated (Expr.allTokens args) ++ [.mark .closeParen])
  | .function params body =>
    .keyword .function ::
      (paramTokens params ++ .mark .openBrace :: (Stmt.allTokens body ++ [.mark .closeBrace]))
  | .unary op operand => .mark op.mark :: inPlace 5 operand.tightness operand.tokens
  | .binary op left right =>
    inPlace (op.level + 1) left.tightness left.tokens ++
      .mark op.mark :: inPlace (op.level + 2) right.tightness right.tokens
  | .update op target true => .mark op.mark :: target.tokens
  | .update op target false => target.tokens ++ [.mark op.mark]
  | .assign target value => target.tokens ++ .mark .assign :: value.tokens

def Expr.allTokens : List Expr → List (List Token)
  | [] => []
  | e :: es => e.tokens :: Expr.allTokens es

def Expr.optionTokens : Option Expr → List Token
  | none => []
  | some e => e.tokens

/-- The first value of a variable, if it is given one. -/
def Expr.initialTokens : Option Expr → List Token
  | none => []
  | some e => .mark .assign :: e.tokens

def Target.tokens : Target → List Token
  | .name name => [.identifier name]
  | .member object name => inPlace 7 object.tightness object.tokens ++ [.mark .dot, wordToken name]
  | .index object key =>
    inPlace 7 object.tightness object.tokens ++
      .mark .openBracket :: (key.tokens ++ [.mark .closeBracket])

def Stmt.tokens : Stmt → List Token
  | .declare kind name init =>
    .keyword kind.keyword :: .identifier name :: (Expr.initialTokens init ++ [.mark .semicolon])
  | .function name params body =>
    .keyword .function :: .identifier name ::
      (paramTokens params ++ .mark .openBrace :: (Stmt.allTokens body ++ [.mark .closeBrace]))
  | .ifElse test consequent alternate =>
    .keyword .ifWord :: .mark .openParen ::
      (test.tokens ++ .mark .closeParen :: (consequent.tokens ++ Stmt.alternateTokens alternate))
  | .forLoop init test update body =>
    .keyword .forWord :: .mark .openParen ::
      (Stmt.firstTokens init ++
        (Expr.optionTokens test ++ .mark .semicolon ::
          (Expr.optionTokens update ++ .mark .closeParen :: body.tokens)))
  | .whileLoop test body =>
    .keyword .whileWord :: .mark .openParen :: (test.tokens ++ .mark .closeParen :: body.tokens)
  | .returns argument => .keyword .returnWord :: (Expr.optionTokens argument ++ [.mark .semicolon])
  | .block body => .mark .openBrace :: (Stmt.allTokens body ++ [.mark .closeBrace])
  | .expression e => e.tokens ++ [.mark .semicolon]

def Stmt.allTokens : List Stmt → List Token
  | [] => []
  | s :: ss => s.tokens ++ Stmt.allTokens ss

def Stmt.alternateTokens : Option Stmt → List Token
  | none => []
  | some s => .keyword .elseWord :: s.tokens

/-- What a loop begins with, and the semicolon after it. -/
def Stmt.firstTokens : Option Stmt → List Token
  | none => [.mark .semicolon]
  | some s => s.tokens

end

/-- The tokens that a program is written as. -/
def Program.tokens (p : Program) : List Token :=
  Stmt.allTokens p

/-! ## Programs that can be written -/

mutual

/-- Whether a statement ends in an `if` without an alternate, which an `else` after it would be taken
for. -/
def Stmt.endsOpen : Stmt → Bool
  | .ifElse _ _ alternate => Stmt.alternateEndsOpen alternate
  | .forLoop _ _ _ body => body.endsOpen
  | .whileLoop _ body => body.endsOpen
  | .declare .. | .function .. | .returns _ | .block _ | .expression _ => false

def Stmt.alternateEndsOpen : Option Stmt → Bool
  | none => true
  | some s => s.endsOpen

end

/-- Whether a loop can begin with a statement: a declaration or an expression. -/
def Stmt.canBegin : Stmt → Bool
  | .declare .. | .expression _ => true
  | _ => false

mutual

/-- Whether the statements in an expression can be written. -/
def Expr.isWritable : Expr → Bool
  | .literal _ | .name _ => true
  | .member object _ => object.isWritable
  | .index object key => object.isWritable && key.isWritable
  | .call callee args => callee.isWritable && Expr.allWritable args
  | .function _ body => Stmt.allWritable body
  | .unary _ operand => operand.isWritable
  | .binary _ left right => left.isWritable && right.isWritable
  | .update _ target _ => target.isWritable
  | .assign target value => target.isWritable && value.isWritable

def Expr.allWritable : List Expr → Bool
  | [] => true
  | e :: es => e.isWritable && Expr.allWritable es

def Expr.optionWritable : Option Expr → Bool
  | none => true
  | some e => e.isWritable

def Target.isWritable : Target → Bool
  | .name _ => true
  | .member object _ => object.isWritable
  | .index object key => object.isWritable && key.isWritable

/-- Whether a statement can be written: loops begin with a declaration, an expression or nothing, and
what stands before an `else` does not end in an `if` without an alternate. -/
def Stmt.isWritable : Stmt → Bool
  | .declare _ _ init => Expr.optionWritable init
  | .function _ _ body => Stmt.allWritable body
  | .ifElse test consequent alternate =>
    test.isWritable && consequent.isWritable && Stmt.optionWritable alternate &&
      (alternate.isNone || !consequent.endsOpen)
  | .forLoop init test update body =>
    Stmt.optionWritable init && init.all Stmt.canBegin && Expr.optionWritable test &&
      Expr.optionWritable update && body.isWritable
  | .whileLoop test body => test.isWritable && body.isWritable
  | .returns argument => Expr.optionWritable argument
  | .block body => Stmt.allWritable body
  | .expression e => e.isWritable

def Stmt.allWritable : List Stmt → Bool
  | [] => true
  | s :: ss => s.isWritable && Stmt.allWritable ss

def Stmt.optionWritable : Option Stmt → Bool
  | none => true
  | some s => s.isWritable

end

def Program.isWritable (p : Program) : Bool :=
  Stmt.allWritable p

end PageRender.Script
