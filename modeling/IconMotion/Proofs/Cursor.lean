import IconMotion.Proofs.Bytes
import IconMotion.Proofs.Placement

namespace IconMotion.Expression

structure Cursor where
  place : Nat
  depth : Nat

/-- A run over lexemes: what becomes of a cursor, with the outcome. -/
structure Run (τ : Type) where
  run : List Lexeme → Cursor → Except Halt τ × Cursor

namespace Run

variable {τ σ : Type}

instance : Monad Run where
  pure x := ⟨fun _ c => (.ok x, c)⟩
  bind p f := ⟨fun ls c => match p.run ls c with
    | (.ok x, c') => (f x).run ls c'
    | (.error why, c') => (.error why, c')⟩

def halt (why : Halt) : Run τ := ⟨fun _ c => (.error why, c)⟩

def lexemeAt (place : List Lexeme → Cursor → Nat) : Run Lexeme := ⟨fun ls c =>
  match ls[place ls c]? with
  | some l => (.ok l, c)
  | none => (.error .outside, c)⟩

def look : Run Lexeme := lexemeAt fun _ c => c.place

def lookAhead : Run Lexeme := lexemeAt fun ls c => min (c.place + 1) (ls.length - 1)

def step : Run Unit := ⟨fun ls c =>
  (.ok (), if c.place + 1 < ls.length then { c with place := c.place + 1 } else c)⟩

def bump : Run Lexeme := do
  let l ← look
  step
  return l

def refuse (cause : Token → ParseCause) : Run τ := do
  let l ← look
  halt (.refused ⟨l.start, cause l.token⟩)

def expect (t : Token) : Run Unit := do
  if (← look).token = t then
    let _ ← bump
    return ()
  else refuse (.expectedToken t)

def consume (t : Token) : Run Bool := do
  if (← look).token = t then
    let _ ← bump
    return true
  else return false

def ident : Run String := do
  let l ← bump
  match l.token with
  | .ident name => return name
  | t => halt (.refused ⟨l.start, .expectedIdent t⟩)

def leave (r : Except Halt τ × Cursor) : Except Halt τ × Cursor :=
  if r.2.depth = 0 then (.error .belowZero, r.2) else (r.1, { r.2 with depth := r.2.depth - 1 })

/-- One level of nesting further in. The level is left again whatever comes of the run. -/
def nested (p : Run τ) : Run τ := ⟨fun ls c =>
  if maxDepth ≤ c.depth then (refuse fun _ => .tooDeep).run ls c
  else leave (p.run ls { c with depth := c.depth + 1 })⟩

def closing (x : τ) : Run τ := do
  let _ ← consume .semicolon
  return x

def items (item : Run τ) (close : Token) : (turns : Nat) → List τ → Run (List τ)
  | 0, _ => halt .endless
  | turns + 1, read => do
    let x ← item
    if ← consume .comma then items item close turns (x :: read)
    else
      expect close
      return (x :: read).reverse

def list (turns : Nat) (item : Run τ) (close : Token) : Run (List τ) := do
  if ← consume close then return [] else items item close turns []

def primary (turns : Nat) (inner : Run Expr) : Run Expr := do
  let l ← bump
  match l.token with
  | .number x => return .number x
  | .text s => return .text s
  | .yes => return .bool true
  | .no => return .bool false
  | .ident name => return .ident name
  | .leftParen =>
    let e ← inner
    expect .rightParen
    return e
  | .leftBracket => return .array (← list turns inner .rightBracket)
  | t => halt (.refused ⟨l.start, .unexpectedToken t⟩)

def trailers (bound : Nat) (inner : Run Expr) : (turns : Nat) → Expr → Run Expr
  | 0, _ => halt .endless
  | turns + 1, e => do
    if ← consume .dot then
      let name ← ident
      trailers bound inner turns (.member e name)
    else if ← consume .leftParen then
      let args ← list bound inner .rightParen
      trailers bound inner turns (.call e args)
    else if ← consume .leftBracket then
      let i ← inner
      expect .rightBracket
      trailers bound inner turns (.index e i)
    else return e

def unaryWith (turns : Nat) (inner operand : Run Expr) : Run Expr := do
  if ← consume .minus then return Parser.negate (← operand)
  else if ← consume .bang then return .unary .not (← operand)
  else
    let e ← primary turns inner
    trailers turns inner turns e

def rights (op? : Token → Option BinaryOp) (operand : Run Expr) : (turns : Nat) → Expr → Run Expr
  | 0, _ => halt .endless
  | turns + 1, left => do
    match op? (← look).token with
    | none => return left
    | some op =>
      let _ ← bump
      let right ← operand
      rights op? operand turns (.binary op left right)

def chain (turns : Nat) (op? : Token → Option BinaryOp) (operand : Run Expr) : Run Expr := do
  let left ← operand
  rights op? operand turns left

def chains (turns : Nat) (ops : List (Token → Option BinaryOp)) (operand : Run Expr) : Run Expr :=
  ops.foldl (fun p op? => chain turns op? p) operand

def binaries (turns : Nat) (operand : Run Expr) : Run Expr := chains turns BinaryOp.levels operand

def unary (turns : Nat) : (levels : Nat) → Run Expr
  | 0 => unaryWith turns (nested (halt .endless)) (nested (halt .endless))
  | levels + 1 => unaryWith turns (nested (binaries turns (unary turns levels))) (nested (unary turns levels))

def expr (turns : Nat) : (levels : Nat) → Run Expr
  | 0 => nested (halt .endless)
  | levels + 1 => nested (binaries turns (unary turns levels))

def declaration (expr : Run Expr) : Run Stmt := do
  let name ← ident
  if ← consume .assign then
    let e ← expr
    closing (.declare name (some e))
  else closing (.declare name none)

def conditional (expr : Run Expr) (branch : Run (List Stmt)) : Run Stmt := do
  expect .leftParen
  let condition ← expr
  expect .rightParen
  let thens ← branch
  if ← consume .elseWord then
    let elses ← branch
    return .branch condition thens elses
  else return .branch condition thens []

def target? : Run (Option String) := do
  let l ← look
  let behind ← lookAhead
  return match l.token with
    | .ident name => if behind.token = .assign then some name else none
    | _ => none

def plainStmt (expr : Run Expr) : Run (Option Stmt) := do
  match ← target? with
  | some name =>
    let _ ← bump
    let _ ← bump
    let e ← expr
    closing (some (.assign name e))
  | none =>
    let e ← expr
    closing (some (.expr e))

def stmtWith (expr : Run Expr) (branch : Run (List Stmt)) : Run (Option Stmt) := do
  if ← consume .semicolon then return none
  else if ← consume .declare then return some (← declaration expr)
  else if ← consume .ifWord then return some (← conditional expr branch)
  else plainStmt expr

def block (stmt : Run (Option Stmt)) : (turns : Nat) → List Stmt → Run (List Stmt)
  | 0, _ => halt .endless
  | turns + 1, read => do
    if ← consume .rightBrace then return read.reverse
    else if (← look).token = .eof then refuse fun _ => .unterminatedBlock
    else
      let s ← stmt
      block stmt turns (s.toList ++ read)

def branchWith (turns : Nat) (stmt : Run (Option Stmt)) : Run (List Stmt) := do
  if ← consume .leftBrace then block stmt turns []
  else
    let s ← stmt
    return s.toList

def stmt (turns : Nat) : (levels : Nat) → Run (Option Stmt)
  | 0 => stmtWith (expr turns 0) (nested (halt .endless))
  | levels + 1 => stmtWith (expr turns (levels + 1)) (nested (branchWith turns (stmt turns levels)))

def stmts (stmt : Run (Option Stmt)) : (turns : Nat) → List Stmt → Run (List Stmt)
  | 0, _ => halt .endless
  | turns + 1, read => do
    if (← look).token = .eof then return read.reverse
    else
      let s ← stmt
      stmts stmt turns (s.toList ++ read)

/-- A program. No loop takes more than `turns` turns, and no more than `levels` nested calls are made one
inside the other. -/
def program (turns levels : Nat) : Run (List Stmt) := stmts (stmt turns levels) turns []

end Run

end IconMotion.Expression
