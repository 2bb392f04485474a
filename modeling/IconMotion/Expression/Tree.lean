namespace IconMotion.Expression

inductive UnaryOp where
  | neg | not
deriving DecidableEq

inductive BinaryOp where
  | add | sub | mul | div | mod | eq | ne | lt | le | gt | ge | and | or
deriving DecidableEq

inductive Expr where
  | number (value : Float)
  | text (value : String)
  | bool (value : Bool)
  | ident (name : String)
  | array (items : List Expr)
  | member (object : Expr) (property : String)
  | index (object index : Expr)
  | call (callee : Expr) (args : List Expr)
  | unary (op : UnaryOp) (operand : Expr)
  | binary (op : BinaryOp) (left right : Expr)

inductive Stmt where
  | declare (name : String) (value : Option Expr)
  | assign (name : String) (value : Expr)
  | expr (value : Expr)
  | branch (condition : Expr) (thens elses : List Stmt)

end IconMotion.Expression
