import PageRender.Decimal.Written
import PageRender.Text.Quoted

/-!
# Tokens of scripts

Words of the language, names, numbers, strings and marks.
-/

namespace PageRender.Script

inductive Keyword where
  | declareVar
  | declareLet
  | declareConst
  | function
  | ifWord
  | elseWord
  | forWord
  | whileWord
  | returnWord
  | trueWord
  | falseWord
  | nullWord
  | undefinedWord
deriving DecidableEq

namespace Keyword

def text : Keyword → String
  | declareVar => "var"
  | declareLet => "let"
  | declareConst => "const"
  | function => "function"
  | ifWord => "if"
  | elseWord => "else"
  | forWord => "for"
  | whileWord => "while"
  | returnWord => "return"
  | trueWord => "true"
  | falseWord => "false"
  | nullWord => "null"
  | undefinedWord => "undefined"

def all : List Keyword := [
  declareVar, declareLet, declareConst, function, ifWord, elseWord, forWord, whileWord, returnWord,
  trueWord, falseWord, nullWord, undefinedWord]

def ofText? (s : String) : Option Keyword :=
  all.find? (·.text == s)

end Keyword

/-- A mark of one or two characters. -/
inductive Mark where
  | equals
  | notEquals
  | increment
  | decrement
  | openParen
  | closeParen
  | openBrace
  | closeBrace
  | openBracket
  | closeBracket
  | semicolon
  | comma
  | assign
  | plus
  | minus
  | times
  | divide
  | less
  | greater
  | not
  | dot
deriving DecidableEq

namespace Mark

def text : Mark → String
  | equals => "=="
  | notEquals => "!="
  | increment => "++"
  | decrement => "--"
  | openParen => "("
  | closeParen => ")"
  | openBrace => "\x7b"
  | closeBrace => "\x7d"
  | openBracket => "["
  | closeBracket => "]"
  | semicolon => ";"
  | comma => ","
  | assign => "="
  | plus => "+"
  | minus => "-"
  | times => "*"
  | divide => "/"
  | less => "<"
  | greater => ">"
  | not => "!"
  | dot => "."

def name : Mark → String
  | equals => "EQUALS"
  | notEquals => "NOT_EQUALS"
  | increment => "INCREMENT"
  | decrement => "DECREMENT"
  | openParen => "LPAREN"
  | closeParen => "RPAREN"
  | openBrace => "LBRACE"
  | closeBrace => "RBRACE"
  | openBracket => "LBRACKET"
  | closeBracket => "RBRACKET"
  | semicolon => "SEMICOLON"
  | comma => "COMMA"
  | assign => "ASSIGN"
  | plus => "PLUS"
  | minus => "MINUS"
  | times => "MULTIPLY"
  | divide => "DIVIDE"
  | less => "LESS_THAN"
  | greater => "GREATER_THAN"
  | not => "NOT"
  | dot => "DOT"

def long : List Mark := [equals, notEquals, increment, decrement]

def short : List Mark := [
  openParen, closeParen, openBrace, closeBrace, openBracket, closeBracket, semicolon, comma, assign,
  plus, minus, times, divide, less, greater, not, dot]

def read? : List Char → Option (Mark × List Char)
  | [] => none
  | [c] => (short.find? (·.text.toList == [c])).map (·, [])
  | c :: d :: rest =>
    match long.find? (·.text.toList == [c, d]) with
    | some m => some (m, rest)
    | none => (short.find? (·.text.toList == [c])).map (·, d :: rest)

end Mark

inductive Token where
  | keyword (word : Keyword)
  | identifier (name : String)
  | number (value : Float)
  | string (value : String)
  | mark (mark : Mark)

namespace Token

def kind : Token → String
  | keyword _ => "KEYWORD"
  | identifier _ => "IDENTIFIER"
  | number _ => "NUMBER"
  | string _ => "STRING"
  | mark m => m.name

def describe (t : Token) : String :=
  let value := match t with
    | keyword w => Text.quoted w.text
    | identifier s => Text.quoted s
    | number x => valueText x
    | string s => Text.quoted s
    | mark m => Text.quoted m.text
  t.kind ++ " " ++ value

end Token

end PageRender.Script
