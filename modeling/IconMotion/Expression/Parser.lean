import IconMotion.Expression.Lexer
import IconMotion.Expression.Tree

namespace IconMotion.Expression

abbrev Parser (τ : Type) := List Lexeme → Except ParseError (τ × List Lexeme)

def peek : List Lexeme → Lexeme
  | [] => ⟨.eof, 0, 0⟩
  | l :: _ => l

/-- Passes the first lexeme; the last one stays. -/
def advance : List Lexeme → List Lexeme
  | _ :: l :: ls => l :: ls
  | ls => ls

namespace Parser

variable {τ : Type}

def refuse (cause : Token → ParseCause) : Parser τ := fun ls =>
  .error ⟨(peek ls).start, cause (peek ls).token⟩

def tooDeep : Parser τ := refuse fun _ => .tooDeep

def expect (t : Token) : Parser Unit := fun ls =>
  if (peek ls).token = t then .ok ((), advance ls) else refuse (.expectedToken t) ls

def ident : Parser String := fun ls =>
  match (peek ls).token with
  | .ident name => .ok (name, advance ls)
  | _ => refuse .expectedIdent ls

def items (item : Parser τ) (close : Token) : (bound : Nat) → List τ → Parser (List τ)
  | 0, _ => refuse .unexpectedToken
  | bound + 1, read => fun ls => do
    let (x, ls) ← item ls
    if (peek ls).token = .comma then items item close bound (x :: read) (advance ls)
    else
      let (_, ls) ← expect close ls
      return ((x :: read).reverse, ls)

def list (bound : Nat) (item : Parser τ) (close : Token) : Parser (List τ) := fun ls =>
  if (peek ls).token = close then .ok ([], advance ls) else items item close bound [] ls

def primary (bound : Nat) (inner : Parser Expr) : Parser Expr := fun ls =>
  match (peek ls).token with
  | .number x => .ok (.number x, advance ls)
  | .text s => .ok (.text s, advance ls)
  | .yes => .ok (.bool true, advance ls)
  | .no => .ok (.bool false, advance ls)
  | .ident name => .ok (.ident name, advance ls)
  | .leftParen => do
    let (e, ls) ← inner (advance ls)
    let (_, ls) ← expect .rightParen ls
    return (e, ls)
  | .leftBracket => do
    let (es, ls) ← list bound inner .rightBracket (advance ls)
    return (.array es, ls)
  | _ => refuse .unexpectedToken ls

def trailers (bound : Nat) (inner : Parser Expr) : (turns : Nat) → Expr → Parser Expr
  | 0, e => fun ls => .ok (e, ls)
  | turns + 1, e => fun ls =>
    match (peek ls).token with
    | .dot => do
      let (name, ls) ← ident (advance ls)
      trailers bound inner turns (.member e name) ls
    | .leftParen => do
      let (args, ls) ← list bound inner .rightParen (advance ls)
      trailers bound inner turns (.call e args) ls
    | .leftBracket => do
      let (i, ls) ← inner (advance ls)
      let (_, ls) ← expect .rightBracket ls
      trailers bound inner turns (.index e i) ls
    | _ => .ok (e, ls)

def negate : Expr → Expr
  | .number x => .number (-x)
  | e => .unary .neg e

/-- An operand, given parsers for expressions inside it and for operands of unary operators. -/
def unaryWith (bound : Nat) (inner operand : Parser Expr) : Parser Expr := fun ls =>
  match (peek ls).token with
  | .minus => do
    let (e, ls) ← operand (advance ls)
    return (negate e, ls)
  | .bang => do
    let (e, ls) ← operand (advance ls)
    return (.unary .not e, ls)
  | _ => do
    let (e, ls) ← primary bound inner ls
    trailers bound inner bound e ls

def rights (op? : Token → Option BinaryOp) (operand : Parser Expr) :
    (turns : Nat) → Expr → Parser Expr
  | 0, left => fun ls => .ok (left, ls)
  | turns + 1, left => fun ls =>
    match op? (peek ls).token with
    | none => .ok (left, ls)
    | some op => do
      let (right, ls) ← operand (advance ls)
      rights op? operand turns (.binary op left right) ls

def chain (bound : Nat) (op? : Token → Option BinaryOp) (operand : Parser Expr) : Parser Expr :=
  fun ls => do
    let (left, ls) ← operand ls
    rights op? operand bound left ls

end Parser

namespace BinaryOp

def ofFactor? : Token → Option BinaryOp
  | .star => some mul
  | .slash => some div
  | .percent => some mod
  | _ => none

def ofTerm? : Token → Option BinaryOp
  | .plus => some add
  | .minus => some sub
  | _ => none

def ofComparison? : Token → Option BinaryOp
  | .less => some lt
  | .lessEqual => some le
  | .greater => some gt
  | .greaterEqual => some ge
  | _ => none

def ofEquality? : Token → Option BinaryOp
  | .equal => some eq
  | .notEqual => some ne
  | _ => none

def ofAnd? : Token → Option BinaryOp
  | .andAnd => some and
  | _ => none

def ofOr? : Token → Option BinaryOp
  | .orOr => some or
  | _ => none

def levels : List (Token → Option BinaryOp) :=
  [ofFactor?, ofTerm?, ofComparison?, ofEquality?, ofAnd?, ofOr?]

end BinaryOp

namespace Parser

def binaries (bound : Nat) (operand : Parser Expr) : Parser Expr :=
  BinaryOp.levels.foldl (fun p op? => chain bound op? p) operand

/-- An operand, with `depth` levels of nesting left. -/
def unary (bound : Nat) : (depth : Nat) → Parser Expr
  | 0 => unaryWith bound tooDeep tooDeep
  | depth + 1 => unaryWith bound (binaries bound (unary bound depth)) (unary bound depth)

def expr (bound : Nat) : (depth : Nat) → Parser Expr
  | 0 => tooDeep
  | depth + 1 => binaries bound (unary bound depth)

def skipSemicolon (ls : List Lexeme) : List Lexeme :=
  if (peek ls).token = .semicolon then advance ls else ls

def declaration (expr : Parser Expr) : Parser Stmt := fun ls => do
  let (name, ls) ← ident ls
  if (peek ls).token = .assign then
    let (e, ls) ← expr (advance ls)
    return (.declare name (some e), skipSemicolon ls)
  else return (.declare name none, skipSemicolon ls)

def conditional (expr : Parser Expr) (branch : Parser (List Stmt)) : Parser Stmt := fun ls => do
  let (_, ls) ← expect .leftParen ls
  let (condition, ls) ← expr ls
  let (_, ls) ← expect .rightParen ls
  let (thens, ls) ← branch ls
  if (peek ls).token = .elseWord then
    let (elses, ls) ← branch (advance ls)
    return (.branch condition thens elses, ls)
  else return (.branch condition thens [], ls)

def target? (ls : List Lexeme) : Option String :=
  match (peek ls).token with
  | .ident name => if (peek (advance ls)).token = .assign then some name else none
  | _ => none

def stmtWith (expr : Parser Expr) (branch : Parser (List Stmt)) : Parser (Option Stmt) := fun ls =>
  match (peek ls).token with
  | .semicolon => .ok (none, advance ls)
  | .declare => do
    let (s, ls) ← declaration expr (advance ls)
    return (some s, ls)
  | .ifWord => do
    let (s, ls) ← conditional expr branch (advance ls)
    return (some s, ls)
  | _ => match target? ls with
    | some name => do
      let (e, ls) ← expr (advance (advance ls))
      return (some (.assign name e), skipSemicolon ls)
    | none => do
      let (e, ls) ← expr ls
      return (some (.expr e), skipSemicolon ls)

def block (stmt : Parser (Option Stmt)) : (turns : Nat) → List Stmt → Parser (List Stmt)
  | 0, _ => refuse fun _ => .unterminatedBlock
  | turns + 1, read => fun ls =>
    if (peek ls).token = .rightBrace then .ok (read.reverse, advance ls)
    else if (peek ls).token = .eof then refuse (fun _ => .unterminatedBlock) ls
    else do
      let (s, ls) ← stmt ls
      block stmt turns (s.toList ++ read) ls

def branchWith (bound : Nat) (stmt : Parser (Option Stmt)) : Parser (List Stmt) := fun ls =>
  if (peek ls).token = .leftBrace then block stmt bound [] (advance ls)
  else do
    let (s, ls) ← stmt ls
    return (s.toList, ls)

def stmt (bound : Nat) : (depth : Nat) → Parser (Option Stmt)
  | 0 => stmtWith (expr bound 0) tooDeep
  | depth + 1 => stmtWith (expr bound (depth + 1)) (branchWith bound (stmt bound depth))

def stmts (stmt : Parser (Option Stmt)) :
    (turns : Nat) → List Stmt → List Lexeme → Except ParseError (List Stmt)
  | 0, read, _ => .ok read.reverse
  | turns + 1, read, ls =>
    if (peek ls).token = .eof then .ok read.reverse
    else do
      let (s, ls) ← stmt ls
      stmts stmt turns (s.toList ++ read) ls

end Parser

/-- The levels of nesting that a program may have. Chains of operators, members and calls may be as long
as the source. -/
def maxDepth : Nat := 64

def parseLexemes (ls : List Lexeme) : Except ParseError (List Stmt) :=
  Parser.stmts (Parser.stmt ls.length maxDepth) ls.length [] ls

def parse (source : String) : Except ParseError (List Stmt) := do
  parseLexemes (← lex source)

end IconMotion.Expression
