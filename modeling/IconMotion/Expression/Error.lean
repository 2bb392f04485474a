import IconMotion.Expression.Token

namespace IconMotion.Expression

inductive ParseCause where
  | unexpectedToken (found : Token)
  | expectedToken (expected found : Token)
  | expectedIdent (found : Token)
  | tooDeep
  | unterminatedBlock
  | unterminatedComment
  | unterminatedText
  | noExponent
  | unexpectedChar (c : Char)
deriving DecidableEq

def ParseCause.message : ParseCause → String
  | unexpectedToken found => "unexpected token " ++ found.describe
  | expectedToken expected found => "expected " ++ expected.describe ++ ", found " ++ found.describe
  | expectedIdent found => "expected identifier, found " ++ found.describe
  | tooDeep => "expression nested too deeply"
  | unterminatedBlock => "unterminated block"
  | unterminatedComment => "unterminated block comment"
  | unterminatedText => "unterminated string literal"
  | noExponent => "invalid number exponent (expected digits)"
  | unexpectedChar c => "unexpected character '" ++ String.singleton c ++ "'"

structure ParseError where
  /-- In bytes of UTF-8. -/
  offset : Nat
  cause : ParseCause
deriving DecidableEq

def ParseError.message (e : ParseError) : String :=
  "expression error at byte " ++ toString e.offset ++ ": " ++ e.cause.message

inductive Mismatch where
  | twoVectors
  | vectorDivisor
  | notScalar (channel : String)
  | notNumeric (channel : String)
deriving DecidableEq

def Mismatch.message : Mismatch → String
  | twoVectors => "cannot multiply two vectors"
  | vectorDivisor => "divisor must be a scalar"
  | notScalar channel => "`" ++ channel ++ "` is not a scalar"
  | notNumeric channel => "`" ++ channel ++ "` does not hold a number or vector"

inductive EvalError where
  | unknownComposition (name : String)
  | unknownLayer (name : String)
  | unknownEffect (layer effect : String)
  | unknownChannel (effect channel : String)
  | missingMember (name : String)
  | typeMismatch (what : Mismatch)
deriving DecidableEq

def EvalError.message : EvalError → String
  | unknownComposition name => "unknown composition `" ++ name ++ "`"
  | unknownLayer name => "unknown layer `" ++ name ++ "`"
  | unknownEffect layer effect => "layer `" ++ layer ++ "` has no effect `" ++ effect ++ "`"
  | unknownChannel effect channel => "effect `" ++ effect ++ "` has no channel `" ++ channel ++ "`"
  | missingMember name => "evaluation context does not provide `" ++ name ++ "`"
  | typeMismatch what => "type mismatch: " ++ what.message

end IconMotion.Expression
