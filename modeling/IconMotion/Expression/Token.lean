import IconMotion.Number.DecimalText
import IconMotion.Text.Quoted

namespace IconMotion.Expression

/-- The words, literals and marks of an expression. The strict and the loose form of an equality are
one token. -/
inductive Token where
  | ident (name : String)
  | number (value : Float)
  | text (value : String)
  | yes
  | no
  | declare
  | ifWord
  | elseWord
  | leftParen
  | rightParen
  | leftBrace
  | rightBrace
  | leftBracket
  | rightBracket
  | comma
  | dot
  | semicolon
  | assign
  | plus
  | minus
  | star
  | slash
  | percent
  | bang
  | equal
  | notEqual
  | less
  | lessEqual
  | greater
  | greaterEqual
  | andAnd
  | orOr
  | eof
deriving DecidableEq

namespace Token

def decimalText : DecimalText := ⟨-4, 15, [], .up⟩

def describe : Token → String
  | ident name => "Ident(" ++ Text.quoted name ++ ")"
  | number x => "Number(" ++ String.ofList (decimalText.render x) ++ ")"
  | text s => "Str(" ++ Text.quoted s ++ ")"
  | yes => "True"
  | no => "False"
  | declare => "Var"
  | ifWord => "If"
  | elseWord => "Else"
  | leftParen => "LParen"
  | rightParen => "RParen"
  | leftBrace => "LBrace"
  | rightBrace => "RBrace"
  | leftBracket => "LBracket"
  | rightBracket => "RBracket"
  | comma => "Comma"
  | dot => "Dot"
  | semicolon => "Semicolon"
  | assign => "Assign"
  | plus => "Plus"
  | minus => "Minus"
  | star => "Star"
  | slash => "Slash"
  | percent => "Percent"
  | bang => "Bang"
  | equal => "EqEq"
  | notEqual => "Ne"
  | less => "Lt"
  | lessEqual => "Le"
  | greater => "Gt"
  | greaterEqual => "Ge"
  | andAnd => "AndAnd"
  | orOr => "OrOr"
  | eof => "Eof"

end Token

/-- A token between two offsets, counted in bytes of UTF-8. -/
structure Lexeme where
  token : Token
  start : Nat
  stop : Nat
deriving DecidableEq

end IconMotion.Expression
