/-!
# Programs

The statements and expressions of scripts. What can be assigned to is a type of its own.
-/

namespace PageRender.Script

inductive Literal where
  | number (value : Float)
  | string (value : String)
  | boolean (value : Bool)
  | null
  | undefined

/-- An operator in front of its operand. -/
inductive UnaryOp where
  | not
  | negate
deriving DecidableEq

inductive BinaryOp where
  | equal
  | notEqual
  | less
  | greater
  | add
  | subtract
  | multiply
  | divide
deriving DecidableEq

/-- An operator that changes a number by one. -/
inductive UpdateOp where
  | increment
  | decrement
deriving DecidableEq

inductive DeclarationKind where
  | var
  | let_
  | const
deriving DecidableEq

mutual

inductive Expr where
  | literal (value : Literal)
  | name (name : String)
  | member (object : Expr) (name : String)
  | index (object key : Expr)
  | call (callee : Expr) (args : List Expr)
  | function (params : List String) (body : List Stmt)
  | unary (op : UnaryOp) (operand : Expr)
  | binary (op : BinaryOp) (left right : Expr)
  | update (op : UpdateOp) (target : Target) (before : Bool)
  | assign (target : Target) (value : Expr)

inductive Target where
  | name (name : String)
  | member (object : Expr) (name : String)
  | index (object key : Expr)

inductive Stmt where
  | declare (kind : DeclarationKind) (name : String) (init : Option Expr)
  | function (name : String) (params : List String) (body : List Stmt)
  | ifElse (test : Expr) (consequent : Stmt) (alternate : Option Stmt)
  | forLoop (init : Option Stmt) (test update : Option Expr) (body : Stmt)
  | whileLoop (test : Expr) (body : Stmt)
  | returns (argument : Option Expr)
  | block (body : List Stmt)
  | expression (value : Expr)

end

def Target.toExpr : Target → Expr
  | .name n => .name n
  | .member o n => .member o n
  | .index o k => .index o k

namespace Expr

def toTarget? : Expr → Option Target
  | name n => some (.name n)
  | member o n => some (.member o n)
  | index o k => some (.index o k)
  | _ => none

def form : Expr → String
  | literal _ => "Literal"
  | name _ => "Identifier"
  | member .. | index .. => "Member"
  | call .. => "Call"
  | function .. => "FunctionExpr"
  | unary .. => "Unary"
  | binary .. => "Binary"
  | update .. => "Update"
  | assign .. => "Assign"

end Expr

/-- Statements that are carried out in order. -/
abbrev Program := List Stmt

end PageRender.Script
